import NativeInterop.PbServerRuns
import Mathlib.Tactic

/-!
# No served connection goes unreported

A handler publishes the parameters of its channel before it reads its first frame, and only the
last step of a `Stop` takes them back.  So while an instance that requires PQ is up, the posture
reports a channel as soon as one of its connections is served.
-/

namespace NativeInterop

namespace PbFrameServer

/-- The handler is through with the handshake. -/
def HandlerPc.admitted : HandlerPc → Bool
  | .loop => true
  | .reading => true
  | .received _ _ => true
  | .dispatching => true
  | _ => false

/-- A connection of an instance that is up and requires PQ. -/
structure State.Guarded (s : State) (c : Connection) : Prop where
  up : ∃ inst, s.instances[c.owner]? = some inst ∧ inst.cancelled = false ∧ inst.requirePq = true

def State.Reported (s : State) : Prop :=
  ∀ c ∈ s.connections, s.Guarded c → c.pc.admitted = true → s.posture ≠ none

theorem reported_initial : State.initial.Reported := by
  intro c hmem
  cases hmem

theorem State.Guarded.of_eq {s next : State} {c c' : Connection} (hguarded : next.Guarded c')
    (hinstances : next.instances = s.instances) (howner : c'.owner = c.owner) : s.Guarded c := by
  obtain ⟨inst, hinst, hup, hpq⟩ := hguarded.up
  exact ⟨⟨inst, by rwa [← hinstances, ← howner], hup, hpq⟩⟩

theorem State.Guarded.cancelled_eq_false {s : State} {c : Connection} (hguarded : s.Guarded c) :
    s.cancelled c.owner = false := by
  obtain ⟨inst, hinst, hup, -⟩ := hguarded.up
  rw [State.cancelled_eq hinst, hup]

/-! ## Steps of a handler -/

/-- A handler goes on, and publishes whenever it is admitted only now. -/
theorem State.Reported.setConnection {s next : State} (hreported : s.Reported) {j : ℕ}
    {c c' : Connection} (hget : s.connections[j]? = some c)
    (hinstances : next.instances = s.instances)
    (hconnections : next.connections = s.connections.set j c') (howner : c'.owner = c.owner)
    (hposture : s.posture ≠ none → next.posture ≠ none)
    (hadmitted : s.Guarded c → c'.pc.admitted = true →
      c.pc.admitted = true ∨ next.posture ≠ none) : next.Reported := by
  intro d hmem hguarded hd
  rw [hconnections] at hmem
  rcases List.mem_or_eq_of_mem_set hmem with hold | rfl
  · exact hposture (hreported d hold (hguarded.of_eq hinstances rfl) hd)
  · have hbefore := hguarded.of_eq hinstances howner
    rcases hadmitted hbefore hd with hwas | hnow
    · exact hposture (hreported c (List.mem_of_getElem? hget) hbefore hwas)
    · exact hnow

/-- A handler that does not publish goes on within the handshake, or after it. -/
theorem State.Reported.move {s next : State} (hreported : s.Reported) {j : ℕ}
    {c c' : Connection} (hget : s.connections[j]? = some c)
    (hnext : next = s.setConnection j c') (howner : c'.owner = c.owner)
    (hadmitted : s.Guarded c → c'.pc.admitted = true → c.pc.admitted = true) :
    next.Reported := by
  subst next
  exact hreported.setConnection hget rfl rfl howner id
    fun hguarded hc' => .inl (hadmitted hguarded hc')

theorem State.Reported.publish {s next : State} (hreported : s.Reported)
    {j : ℕ} {c : Connection} (hget : s.connections[j]? = some c) (hposture : next.posture ≠ none)
    (hinstances : next.instances = s.instances)
    (hconnections : next.connections = s.connections.set j { c with pc := .loop }) :
    next.Reported :=
  hreported.setConnection hget hinstances hconnections rfl (fun _ => hposture)
    fun _ _ => .inr hposture

/-- A handler that finds its instance cancelled has nothing to publish. -/
theorem State.Reported.skip {s next : State} (hreported : s.Reported) {j : ℕ} {c : Connection}
    (hget : s.connections[j]? = some c) (hcancelled : s.cancelled c.owner = true)
    (hposture : next.posture = s.posture) (hinstances : next.instances = s.instances)
    (hconnections : next.connections = s.connections.set j { c with pc := .loop }) :
    next.Reported := by
  apply hreported.setConnection hget hinstances hconnections rfl (by rw [hposture]; exact id)
  intro hguarded
  rw [hguarded.cancelled_eq_false] at hcancelled
  cases hcancelled

/-- The tables and the posture are as they were. -/
theorem State.Reported.keep {s next : State} (hreported : s.Reported)
    (hinstances : next.instances = s.instances) (hconnections : next.connections = s.connections)
    (hposture : next.posture = s.posture) : next.Reported := by
  intro c hmem hguarded hc
  rw [hconnections] at hmem
  rw [hposture]
  exact hreported c hmem (hguarded.of_eq hinstances rfl) hc

theorem State.Reported.publishStep {s next : State} (hreported : s.Reported) {j : ℕ}
    {c : Connection} {params : PqSecureChannel.PqChannelParams}
    (hget : s.connections[j]? = some c) (hpc : c.pc = .publish params)
    (hstep : s.handlerStep j c = some next) : next.Reported := by
  simp only [State.handlerStep, hpc] at hstep
  split at hstep
  · cases hstep
    exact hreported.keep rfl rfl rfl
  · split_ifs at hstep with hself hchecked hcancelled
    · cases hstep
      exact hreported.publish hget (Option.some_ne_none _) rfl rfl
    · cases hstep
      exact hreported.skip hget hcancelled rfl rfl rfl
    · cases hstep
      exact hreported.keep rfl rfl rfl
  · cases hstep

theorem State.Reported.handlerStep {s next : State} (hreported : s.Reported) (hinv : Invariant s)
    {j : ℕ} {c : Connection} (hget : s.connections[j]? = some c)
    (hstep : s.handlerStep j c = some next) : next.Reported := by
  cases hpc : c.pc with
  | accepted =>
      simp only [State.handlerStep, hpc, Option.some.injEq] at hstep
      apply hreported.move hget hstep.symm rfl
      intro hguarded
      obtain ⟨inst, hinst, hup, hpq⟩ := hguarded.up
      have hflag : s.requirePq = true := by rw [← (hinv.live c.owner inst hinst hup).2, hpq]
      simp [hflag, HandlerPc.admitted]
  | readProvider =>
      simp only [State.handlerStep, hpc, Option.some.injEq] at hstep
      exact hreported.move hget hstep.symm rfl fun _ hadmitted => by cases hadmitted
  | readIdentity provider =>
      simp only [State.handlerStep, hpc] at hstep
      split at hstep
      · cases hstep
        exact hreported.move hget rfl rfl fun _ hadmitted => by cases hadmitted
      · cases hstep
        exact hreported.move hget rfl rfl fun _ hadmitted => by cases hadmitted
  | useCipher params =>
      simp only [State.handlerStep, hpc, Option.some.injEq] at hstep
      exact hreported.move hget hstep.symm rfl fun _ hadmitted => by cases hadmitted
  | publish params => exact hreported.publishStep hget hpc hstep
  | loop =>
      simp only [State.handlerStep, hpc, Option.some.injEq] at hstep
      exact hreported.move hget hstep.symm rfl fun _ _ => by simp [hpc, HandlerPc.admitted]
  | received completed attached =>
      simp only [State.handlerStep, hpc, Option.some.injEq] at hstep
      subst next
      have hconnections : (s.setConnection j { c with pc := .dispatching }).connections =
          s.connections.set j { c with pc := .dispatching } := rfl
      have hadmitted : c.pc.admitted = true := by rw [hpc]; rfl
      exact hreported.setConnection hget rfl hconnections rfl id fun _ _ => .inl hadmitted
  | handshake provider identity => simp [State.handlerStep, hpc] at hstep
  | reading => simp [State.handlerStep, hpc] at hstep
  | dispatching => simp [State.handlerStep, hpc] at hstep
  | closed => simp [State.handlerStep, hpc] at hstep

theorem State.Reported.publishNested {s next : State} (hreported : s.Reported) {j : ℕ}
    {c : Connection} (hget : s.connections[j]? = some c)
    (hstep : s.publishNested j c = some next) : next.Reported := by
  unfold State.publishNested at hstep
  split at hstep
  · split_ifs at hstep with hcancelled
    · cases hstep
      exact hreported.skip hget hcancelled rfl rfl rfl
    · cases hstep
      exact hreported.publish hget (Option.some_ne_none _) rfl rfl
  · split_ifs at hstep with hcancelled
    · cases hstep
      exact hreported.skip hget hcancelled rfl rfl rfl
    · cases hstep
      exact hreported.publish hget (Option.some_ne_none _) rfl rfl
  · cases hstep

theorem Connection.admitted_of_after {c c' : Connection} {outcome : Outcome}
    (hafter : c.after outcome = some c') (hadmitted : c'.pc.admitted = true) :
    c.pc.admitted = true := by
  unfold Connection.after at hafter
  split at hafter <;> cases hafter <;> simp_all [HandlerPc.admitted]

/-! ## Steps of the accept loop, of Start and of Stop -/

theorem State.Reported.accept {s next : State} (hreported : s.Reported) {owner : ℕ}
    (hstep : s.accept owner = some next) : next.Reported := by
  unfold State.accept at hstep
  split at hstep
  · cases hstep
  · split_ifs at hstep
    cases hstep
    intro c hmem hguarded hc
    rcases List.mem_append.mp hmem with hold | hnew
    · exact hreported c hold (hguarded.of_eq rfl rfl) hc
    · rw [List.mem_singleton.mp hnew] at hc
      cases hc

theorem State.Reported.launch {s next : State} (hreported : s.Reported) (hinv : Invariant s)
    {inst : Instance} (hinstances : next.instances = s.instances ++ [inst])
    (hconnections : next.connections = s.connections) (hposture : next.posture = s.posture) :
    next.Reported := by
  intro c hmem hguarded hc
  rw [hconnections] at hmem
  rw [hposture]
  apply hreported c hmem _ hc
  obtain ⟨j, hget⟩ := List.getElem?_of_mem hmem
  obtain ⟨old, hold, -⟩ := hinv.safe j c hget
  obtain ⟨found, hfound, hup, hpq⟩ := hguarded.up
  rw [hinstances, List.getElem?_append_left (List.getElem?_eq_some_iff.mp hold).1] at hfound
  exact ⟨⟨found, hfound, hup, hpq⟩⟩

theorem State.Reported.startStep {s : State} (hreported : s.Reported) (hinv : Invariant s)
    (pc : StartPc) (flags : BitVec 32) : (s.startStep pc flags).Reported := by
  cases pc with
  | enter =>
      simp only [State.startStep]
      split
      · split_ifs
        · exact hreported.keep rfl rfl rfl
        · exact hreported.keep rfl rfl rfl
      · exact hreported.keep rfl rfl rfl
  | launch => exact hreported.launch hinv rfl rfl rfl
  | initEngine | setFlag | createProvider | createIdentity | listen | setListener | setCts =>
      exact hreported.keep rfl rfl rfl

/-- Marking an instance brings none up. -/
theorem State.Reported.setInstance {s next : State} (hreported : s.Reported) {i : ℕ}
    {update : Instance → Instance}
    (hinstances : next.instances = s.instances.modify i update)
    (hconnections : next.connections = s.connections) (hposture : next.posture = s.posture)
    (hupdate : ∀ inst, (update inst).requirePq = inst.requirePq ∧
      ((update inst).cancelled = false → inst.cancelled = false)) : next.Reported := by
  intro c hmem hguarded hc
  rw [hconnections] at hmem
  rw [hposture]
  apply hreported c hmem _ hc
  obtain ⟨inst, hinst, hup, hpq⟩ := hguarded.up
  rw [hinstances, List.getElem?_modify, Option.map_eq_map, Option.map_eq_some_iff] at hinst
  obtain ⟨old, hold, rfl⟩ := hinst
  refine ⟨⟨old, hold, ?_⟩⟩
  split_ifs at hup hpq
  · exact ⟨(hupdate old).2 hup, (hupdate old).1 ▸ hpq⟩
  · exact ⟨hup, hpq⟩

theorem State.Reported.stopStep {s : State} (hreported : s.Reported) (hinv : Invariant s)
    {pc : StopPc} {target : Option ℕ} (hgate : s.gate = .stop pc target) :
    (s.stopStep pc target).Reported := by
  cases pc with
  | cancel =>
      simp only [State.stopStep]
      cases s.cts with
      | none => exact hreported.keep rfl rfl rfl
      | some i => exact hreported.setInstance rfl rfl rfl fun _ => ⟨rfl, fun hup => by cases hup⟩
  | stopListener =>
      simp only [State.stopStep]
      cases s.listener with
      | none => exact hreported.keep rfl rfl rfl
      | some i => exact hreported.setInstance rfl rfl rfl fun _ => ⟨rfl, id⟩
  | dispose | clearListener | clearCts | clearProvider | clearIdentity =>
      exact hreported.keep rfl rfl rfl
  | clearPosture =>
      -- Whatever was up has been cancelled by now.
      intro c _ hguarded
      obtain ⟨inst, hinst, hup, -⟩ := hguarded.up
      exact (hinv.no_live (by simp [State.current, hgate]) hinst hup).elim

theorem State.Reported.step {s next : State} {action : Action} (hreported : s.Reported)
    (hinv : Invariant s) (hstep : machine.step s action = some next) : next.Reported := by
  simp only [machine] at hstep
  cases action with
  | callStart flags =>
      simp only [PbFrameServer.step] at hstep
      split_ifs at hstep
      cases hstep
      exact hreported.keep rfl rfl rfl
  | startStep =>
      simp only [PbFrameServer.step] at hstep
      split at hstep
      · cases hstep
        exact hreported.startStep hinv _ _
      · cases hstep
  | startThrow =>
      simp only [PbFrameServer.step] at hstep
      split at hstep
      · split_ifs at hstep
        cases hstep
        exact hreported.keep rfl rfl rfl
      · cases hstep
  | callStop =>
      simp only [PbFrameServer.step] at hstep
      split_ifs at hstep
      cases hstep
      exact hreported.keep rfl rfl rfl
  | stopStep =>
      simp only [PbFrameServer.step] at hstep
      split at hstep
      · next pc target hgate =>
          cases hstep
          exact hreported.stopStep hinv hgate
      · cases hstep
  | accept owner => exact hreported.accept hstep
  | handlerStep j =>
      simp only [PbFrameServer.step] at hstep
      split at hstep
      · cases hstep
      · next c hget => exact hreported.handlerStep hinv hget hstep
  | publishNested j =>
      simp only [PbFrameServer.step] at hstep
      split at hstep
      · cases hstep
      · next c hget => exact hreported.publishNested hget hstep
  | outcome j result =>
      simp only [PbFrameServer.step] at hstep
      split at hstep
      · cases hstep
      · next c hget =>
          obtain ⟨c', hafter, rfl⟩ := Option.map_eq_some_iff.mp hstep
          exact hreported.move hget rfl (Connection.after_owner hafter)
            fun _ => Connection.admitted_of_after hafter

/-! ## Every run -/

/-- In every run, as long as an instance that requires PQ has not been cancelled, the posture
reports the parameters of a completed handshake of that very instance whenever one of its
connections is served. -/
theorem served_reported {s : State} {actions : List Action} {c : Connection} {inst : Instance}
    (hrun : machine.run State.initial actions = some s) (hmem : c ∈ s.connections)
    (hinst : s.instances[c.owner]? = some inst) (hup : inst.cancelled = false)
    (hpq : inst.requirePq = true) (hserved : c.pc.admitted = true) :
    ∃ p d, s.posture = some p ∧ s.connections[p.connection]? = some d ∧ d.owner = c.owner ∧
      d.handshakeCompleted = true := by
  have hinv := invariant_of_run hrun
  have hreported : s.Reported := by
    refine (machine.run_invariant_of_step (I := fun s => Invariant s ∧ s.Reported) ?_
      ⟨initial_invariant, reported_initial⟩ hrun).2
    exact fun _ _ _ hboth hstep => ⟨hboth.1.step hstep, hboth.2.step hboth.1 hstep⟩
  obtain ⟨p, hp⟩ := Option.ne_none_iff_exists'.mp
    (hreported c hmem ⟨⟨inst, hinst, hup, hpq⟩⟩ hserved)
  obtain ⟨d, other, hhonest⟩ := hinv.honest p hp
  have hcurrent := (hinv.live c.owner inst hinst hup).1
  have hother : s.current = some d.owner := by
    rcases hhonest.running with hrunning | ⟨pc, hstop⟩
    · exact (hinv.live d.owner other hhonest.owner hrunning).1
    · have hconsistent := hinv.consistent
      simp only [State.Consistent, hstop] at hconsistent
      cases pc <;> simp_all [State.current]
  exact ⟨p, d, hp, hhonest.connection, Option.some.inj (hother.symm.trans hcurrent),
    hhonest.completed⟩

theorem served_reported_handshake :
    ∃ s c inst, machine.run State.initial handshakeActions = some s ∧ c ∈ s.connections ∧
      s.instances[c.owner]? = some inst ∧ inst.requirePq = true ∧ c.pc = .loop ∧
      ∃ p d, s.posture = some p ∧ s.connections[p.connection]? = some d ∧ d.owner = c.owner ∧
        d.handshakeCompleted = true := by
  refine ⟨_, ⟨0, .loop, true, true⟩, ⟨true, true, false⟩, rfl, .head _, rfl, rfl, rfl, ?_⟩
  exact @served_reported _ handshakeActions _ _ rfl (.head _) rfl rfl rfl rfl

end PbFrameServer

end NativeInterop
