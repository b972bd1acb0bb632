import NativeInterop.KotlinPbTransport
import Mathlib.Tactic

/-!
# The requests of the Android transport

A switch that is cancelled after it has stopped the server leaves a recorded port on which no
server runs.  From there no request can be answered before the mode is switched; without such
a switch every request can be.
-/

namespace NativeInterop

namespace KotlinPbTransport

/-! ## Requests that can be answered -/

/-- A port is recorded on which no server runs. -/
def Transport.Stranded (t : Transport) : Prop := t.port ≠ none ∧ t.server = none

/-- With what the host and the server may do short of a switch, some call comes to a good end. -/
def State.Serves (s : State) : Prop :=
  ∃ more middle, (∀ a ∈ more, a.switches = false) ∧ machine.run s more = some middle ∧
    ∃ last next, step middle last = some (next, some true)

theorem State.Serves.of_step {s next : State} {action : Action} (hserves : next.Serves)
    (haction : action.switches = false) (hstep : step s action = some (next, none)) :
    s.Serves := by
  obtain ⟨more, middle, hmore, hrun, hlast⟩ := hserves
  have hmachine : machine.step s action = some next := by
    simp only [machine, hstep, Option.map_some]
  exact ⟨action :: more, middle, List.forall_mem_cons.mpr ⟨haction, hmore⟩,
    (machine.run_cons_of_step hmachine more).trans hrun, hlast⟩

theorem Transport.advance_ok {t : Transport} {cancelled : Bool} {pc : Pc} :
    t.advance cancelled .ok pc = t.proceed cancelled .ok pc := by
  simp [Transport.advance]

theorem serves_of_answers {s : State} {i : ℕ} {retried cancelled : Bool}
    (hheld : s.holder = some ⟨.requesting i retried, cancelled⟩)
    (hanswers : s.transport.answers i = true) : s.Serves := by
  have hproceed : s.transport.proceed cancelled .ok (.requesting i retried) =
      some (s.transport, .ended true) := by
    simp only [Transport.proceed, hanswers, if_true]
  have hended := step_ended hheld (Transport.advance_ok.trans hproceed)
  exact ⟨[], s, List.forall_mem_nil _, rfl, .advance .ok, _, hended⟩

/-- The server is there for a connection that is about to be used. -/
theorem State.Invariant.serves_requesting {s : State} (hinv : s.Invariant) {server : Server}
    (hserver : s.transport.server = some server) {i : ℕ} {retried cancelled : Bool}
    (hheld : s.holder = some ⟨.requesting i retried, cancelled⟩) : s.Serves := by
  have hshared : s.transport.shared = some i := hinv.holds _ hheld
  obtain ⟨c, hget, hport⟩ := hinv.consistent.shared i hshared
  have hsame : server.port = c.port :=
    Option.some.inj ((hinv.consistent.running server hserver).2.symm.trans hport)
  have hmode : c.secure = server.requirePq :=
    hinv.consistent.mode c (List.mem_of_getElem? hget) server hserver hsame
  by_cases hready : c.secure = true ∧ c.published = false
  · -- The server has yet to complete its side of the handshake.
    have hfits : server.port = c.port ∧ server.requirePq = true ∧ c.secure = true :=
      ⟨hsame, hmode ▸ hready.1, hready.1⟩
    have hstep : step s (.publish i) = some (⟨{ s.transport with
        connections := s.transport.connections.set i { c with published := true }
        posture := some i }, s.holder⟩, none) := by
      simp only [step, Transport.publish, hget, hserver, if_pos hfits]
    have hlt := (List.getElem?_eq_some_iff.mp hget).1
    refine State.Serves.of_step ?_ rfl hstep
    apply serves_of_answers
    · exact hheld
    · simp [Transport.answers, List.getElem?_set_self hlt, hserver, hsame, hmode]
  · apply serves_of_answers hheld
    rw [not_and, Bool.not_eq_false] at hready
    cases hsecure : c.secure with
    | false => simp [Transport.answers, hget, hserver, hsame, hsecure, ← hmode]
    | true => simp [Transport.answers, hget, hserver, hsame, hsecure, ← hmode, hready hsecure]

/-- The server is there for a connection that is about to be opened. -/
theorem State.Invariant.serves_connecting {s : State} (hinv : s.Invariant) {server : Server}
    (hserver : s.transport.server = some server) {port : ℕ} {retried : Bool}
    (hheld : s.holder = some ⟨.connecting port (.shared retried), false⟩) : s.Serves := by
  have hport : s.transport.port = some port := (hinv.holds _ hheld).1
  obtain ⟨hmode, hrecorded⟩ := hinv.consistent.running server hserver
  have hsame : server.port = port := Option.some.inj (hrecorded.symm.trans hport)
  have haccepts : s.transport.accepts port = true := by
    simp [Transport.accepts, hserver, hsame, hmode]
  have hproceed : s.transport.proceed false .ok (.connecting port (.shared retried)) =
      some ({ s.transport.connect port with shared := some s.transport.connections.length },
        .at (.requesting s.transport.connections.length retried)) := by
    simp only [Transport.proceed, haccepts, if_true]
  have hstep := step_at hheld (Transport.advance_ok.trans hproceed)
  exact ((hinv.afterStep hstep).serves_requesting hserver rfl).of_step rfl hstep

theorem State.Invariant.serves_starting {s : State} (hinv : s.Invariant)
    (hthere : ¬ s.transport.Stranded) {retried : Bool}
    (hheld : s.holder = some ⟨.starting (.shared retried), false⟩) : s.Serves := by
  cases hport : s.transport.port with
  | none =>
      have hserver := hinv.consistent.server_eq_none hport
      have hproceed : s.transport.proceed false .ok (.starting (.shared retried)) =
          some ({ s.transport with
            port := some s.transport.ports
            server := some ⟨s.transport.ports, s.transport.secureMode⟩
            ports := s.transport.ports + 1 },
            .at (.connecting s.transport.ports (.shared retried))) := by
        simp [Transport.proceed, hport, Transport.startServer, hserver, nativeStart]
      have hstep := step_at hheld (Transport.advance_ok.trans hproceed)
      exact ((hinv.afterStep hstep).serves_connecting rfl rfl).of_step rfl hstep
  | some port =>
      obtain ⟨server, hserver⟩ : ∃ server, s.transport.server = some server := by
        rw [← Option.ne_none_iff_exists']
        exact fun hserver => hthere ⟨by simp [hport], hserver⟩
      have hproceed : s.transport.proceed false .ok (.starting (.shared retried)) =
          some (s.transport, .at (.connecting port (.shared retried))) := by
        simp only [Transport.proceed, hport]
      have hstep := step_at hheld (Transport.advance_ok.trans hproceed)
      exact ((hinv.afterStep hstep).serves_connecting hserver rfl).of_step rfl hstep

theorem State.Invariant.serves {s : State} (hinv : s.Invariant) (hfree : s.holder = none)
    (hthere : ¬ s.transport.Stranded) : s.Serves := by
  have henter : step s (.enter .withConnection) =
      some (⟨s.transport, some ⟨.ensuring (.shared false), false⟩⟩, none) := by
    simp only [step, hfree, Call.entry]
  have hentered := hinv.afterStep henter
  refine State.Serves.of_step ?_ rfl henter
  cases hshared : s.transport.shared with
  | none =>
      have hproceed : s.transport.proceed false .ok (.ensuring (.shared false)) =
          some (s.transport, .at (.starting (.shared false))) := by
        simp only [Transport.proceed, hshared]
      have hstep := step_at (s := ⟨s.transport, some ⟨.ensuring (.shared false), false⟩⟩) rfl
        (Transport.advance_ok.trans hproceed)
      exact ((hentered.afterStep hstep).serves_starting hthere rfl).of_step rfl hstep
  | some i =>
      have hproceed : s.transport.proceed false .ok (.ensuring (.shared false)) =
          some (s.transport, .at (.requesting i false)) := by
        simp only [Transport.proceed, hshared]
      have hstep := step_at (s := ⟨s.transport, some ⟨.ensuring (.shared false), false⟩⟩) rfl
        (Transport.advance_ok.trans hproceed)
      obtain ⟨c, -, hport⟩ := hinv.consistent.shared i hshared
      obtain ⟨server, hserver⟩ : ∃ server, s.transport.server = some server := by
        rw [← Option.ne_none_iff_exists']
        exact fun hserver => hthere ⟨by simp [hport], hserver⟩
      exact ((hentered.afterStep hstep).serves_requesting hserver rfl).of_step rfl hstep

/-! ## Ports on which no server runs -/

theorem Transport.startServer_server {t next : Transport} {fails : Bool} {port : ℕ}
    (hnext : t.startServer fails = some (next, port)) : next.server ≠ none := by
  unfold Transport.startServer at hnext
  split at hnext
  · split at hnext
    · next server hserver =>
        cases hnext
        simp [hserver]
    · cases hnext
      simp
  · cases hnext

theorem Transport.Stranded.of_catchIo {t next : Transport} {request : Request}
    {progress : Progress} (hnext : t.catchIo request = (next, progress))
    (hstranded : next.Stranded) : t.Stranded := by
  unfold Transport.catchIo at hnext
  split at hnext
  · cases hnext
    exact hstranded
  · cases hnext
    exact hstranded

/-- Only the stop of a switch takes a server away from its port. -/
theorem Transport.Stranded.of_advance {t next : Transport} {cancelled : Bool} {answer : Answer}
    {pc : Pc} {progress : Progress} (hstranded : next.Stranded)
    (hnext : t.advance cancelled answer pc = some (next, progress)) :
    t.Stranded ∨ ∃ value, progress = .at (.recording value) := by
  rcases Transport.advance_eq_some hnext with ⟨rfl, rfl⟩ | hnext
  · exact .inl hstranded
  cases pc with
  | comparing value =>
      simp only [Transport.proceed] at hnext
      split_ifs at hnext <;> cases hnext <;> exact .inl hstranded
  | closing value =>
      cases hnext
      exact .inl hstranded
  | stopping value =>
      cases hnext
      exact .inr ⟨value, rfl⟩
  | recording value =>
      simp only [Transport.proceed] at hnext
      split_ifs at hnext
      · cases hnext
        exact .inl hstranded
      · cases hnext
        exact absurd rfl hstranded.1
  | ensuring request =>
      simp only [Transport.proceed] at hnext
      split at hnext
      · cases hnext
        exact .inl hstranded
      · cases hnext
        exact .inl hstranded
  | starting request =>
      simp only [Transport.proceed] at hnext
      split at hnext
      · cases hnext
        exact .inl hstranded
      · split at hnext
        · next hstarted =>
            cases hnext
            exact absurd hstranded.2 (Transport.startServer_server hstarted)
        · cases hnext
          exact .inl hstranded
  | connecting port request =>
      simp only [Transport.proceed] at hnext
      split at hnext
      · split_ifs at hnext
        cases hnext
        exact .inl hstranded
      · split_ifs at hnext
        cases hnext
        exact .inl hstranded
      · exact .inl (hstranded.of_catchIo (Option.some.inj hnext))
      · cases hnext
        exact .inl hstranded
  | requesting connection retried =>
      simp only [Transport.proceed] at hnext
      split at hnext
      · split_ifs at hnext
        cases hnext
        exact .inl hstranded
      · exact .inl (hstranded.of_catchIo (Option.some.inj hnext))
      · cases hnext
        exact .inl hstranded

theorem Transport.Stranded.not_publish {t next : Transport} {i : ℕ}
    (hnext : t.publish i = some next) : ¬ t.Stranded ∧ ¬ next.Stranded := by
  obtain ⟨c, server, -, hserver, -, -, -, rfl⟩ := Transport.publish_eq_some hnext
  simp [Transport.Stranded, hserver]

/-- A call in progress is no switch. -/
def Pc.requests : Pc → Bool
  | .ensuring _ => true
  | .starting _ => true
  | .connecting _ _ => true
  | .requesting _ _ => true
  | _ => false

def State.Requests (s : State) : Prop :=
  ∀ holder, s.holder = some holder → holder.pc.requests = true

theorem Transport.Stranded.advance {t next : Transport} (hstranded : t.Stranded)
    {cancelled : Bool} {answer : Answer} {pc : Pc} {progress : Progress}
    (hpc : pc.requests = true)
    (hnext : t.advance cancelled answer pc = some (next, progress)) :
    next.Stranded ∧
      ((∃ pc, progress = .at pc ∧ pc.requests = true) ∨ progress = .ended false) := by
  have hcatch : ∀ {request next progress}, t.catchIo request = (next, progress) →
      next.Stranded ∧
        ((∃ pc, progress = .at pc ∧ pc.requests = true) ∨ progress = .ended false) := by
    intro request next progress hcatch
    unfold Transport.catchIo at hcatch
    split at hcatch
    · cases hcatch
      exact ⟨hstranded, .inl ⟨_, rfl, rfl⟩⟩
    · cases hcatch
      exact ⟨hstranded, .inr rfl⟩
  rcases Transport.advance_eq_some hnext with ⟨rfl, rfl⟩ | hnext
  · exact ⟨hstranded, .inr rfl⟩
  cases pc with
  | comparing | closing | stopping | recording => cases hpc
  | ensuring request =>
      simp only [Transport.proceed] at hnext
      split at hnext
      · cases hnext
        exact ⟨hstranded, .inl ⟨_, rfl, rfl⟩⟩
      · cases hnext
        exact ⟨hstranded, .inl ⟨_, rfl, rfl⟩⟩
  | starting request =>
      obtain ⟨port, hport⟩ := Option.ne_none_iff_exists'.mp hstranded.1
      simp only [Transport.proceed, hport] at hnext
      cases hnext
      exact ⟨hstranded, .inl ⟨_, rfl, rfl⟩⟩
  | connecting port request =>
      have haccepts : t.accepts port = false := by rw [Transport.accepts, hstranded.2]
      simp only [Transport.proceed, haccepts] at hnext
      split at hnext
      · cases hnext
      · cases hnext
      · exact hcatch (Option.some.inj hnext)
      · cases hnext
        exact ⟨hstranded, .inr rfl⟩
  | requesting connection retried =>
      have hanswers : t.answers connection = false := by
        rw [Transport.answers, hstranded.2]
        split <;> simp_all
      simp only [Transport.proceed, hanswers] at hnext
      split at hnext
      · cases hnext
      · exact hcatch (Option.some.inj hnext)
      · cases hnext
        exact ⟨hstranded, .inr rfl⟩

/-- Nothing but a switch finds a way out. -/
theorem State.not_serves {s : State} (hfree : s.holder = none) (hstranded : s.transport.Stranded) :
    ¬ s.Serves := by
  have hstep : ∀ {s : State} {action : Action} {result : State × Option Bool},
      s.transport.Stranded ∧ s.Requests → action.switches = false →
      step s action = some result →
      (result.1.transport.Stranded ∧ result.1.Requests) ∧ result.2 ≠ some true := by
    rintro s action result ⟨hstranded, hrequests⟩ haction hstep
    cases action with
    | enter call =>
        obtain ⟨-, rfl⟩ := step_enter_eq_some hstep
        refine ⟨⟨hstranded, ?_⟩, nofun⟩
        rintro holder ⟨⟩
        cases call with
        | setSecure value => cases haction
        | withConnection => rfl
        | openConnection => rfl
    | advance answer =>
        obtain ⟨holder, next, hheld, ⟨pc, hnext, rfl⟩ | ⟨ok, hnext, rfl⟩⟩ :=
          step_advance_eq_some hstep
        · obtain ⟨hnow, ⟨_, ⟨⟩, hpc⟩ | hended⟩ := hstranded.advance (hrequests holder hheld) hnext
          · refine ⟨⟨hnow, ?_⟩, nofun⟩
            rintro moved ⟨⟩
            exact hpc
          · cases hended
        · obtain ⟨hnow, ⟨_, hat, -⟩ | hended⟩ := hstranded.advance (hrequests holder hheld) hnext
          · cases hat
          · cases hended
            exact ⟨⟨hnow, nofun⟩, nofun⟩
    | cancel =>
        obtain ⟨holder, hheld, rfl⟩ := step_cancel_eq_some hstep
        refine ⟨⟨hstranded, ?_⟩, nofun⟩
        rintro cancelled ⟨⟩
        exact hrequests holder hheld
    | publish i =>
        obtain ⟨next, hnext, rfl⟩ := step_publish_eq_some hstep
        exact absurd hstranded (Transport.Stranded.not_publish hnext).1
  rintro ⟨more, middle, hmore, hrun, last, next, hlast⟩
  have hmiddle : middle.transport.Stranded ∧ middle.Requests := by
    refine machine.run_invariant (P := fun _ a => a.switches = false)
      (I := fun s => s.transport.Stranded ∧ s.Requests) ?_ ⟨hstranded, by simp [Requests, hfree]⟩
      (machine.runMeets_of_forall hmore s) hrun
    intro u a v hu ha hmachine
    obtain ⟨ended, hsome⟩ := machine_step_eq_some hmachine
    exact (hstep hu ha hsome).1
  cases hswitch : last.switches with
  | false => exact (hstep hmiddle hswitch hlast).2 rfl
  | true =>
      cases last with
      | enter call =>
          obtain ⟨-, heq⟩ := step_enter_eq_some hlast
          cases heq
      | advance | cancel | publish => cases hswitch

/-! ## Every run -/

/-- The step is not that of a switch that has stopped a server and been cancelled since. -/
def State.keepsRecord (s : State) : Action → Bool
  | .advance _ =>
      match s.holder with
      | some ⟨.recording _, true⟩ => s.transport.port = none
      | _ => true
  | _ => true

/-- A server is missing on its port for as long as a switch has to record, and no longer. -/
structure State.Sound (s : State) : Prop extends s.Invariant where
  stranded : s.transport.Stranded →
    ∃ value cancelled, s.holder = some ⟨.recording value, cancelled⟩

theorem sound_initial : State.initial.Sound where
  toInvariant := invariant_initial
  stranded := fun hstranded => absurd rfl hstranded.1

theorem State.Sound.afterStep {s next : State} {action : Action} (hsound : s.Sound)
    (hstep : machine.step s action = some next) (hkeeps : s.keepsRecord action = true) :
    next.Sound := by
  obtain ⟨ended, hsome⟩ := machine_step_eq_some hstep
  refine ⟨hsound.toInvariant.afterStep hsome, ?_⟩
  intro hstranded
  cases action with
  | enter call =>
      obtain ⟨hfree, heq⟩ := step_enter_eq_some hsome
      cases heq
      obtain ⟨value, cancelled, hheld⟩ := hsound.stranded hstranded
      rw [hfree] at hheld
      cases hheld
  | cancel =>
      obtain ⟨holder, hheld, heq⟩ := step_cancel_eq_some hsome
      cases heq
      obtain ⟨value, cancelled, hrecording⟩ := hsound.stranded hstranded
      rw [hheld] at hrecording
      cases hrecording
      exact ⟨value, true, rfl⟩
  | publish i =>
      obtain ⟨after, hnext, heq⟩ := step_publish_eq_some hsome
      cases heq
      exact absurd hstranded (Transport.Stranded.not_publish hnext).2
  | advance answer =>
      obtain ⟨⟨pc, cancelled⟩, after, hheld, ⟨moved, hnext, heq⟩ | ⟨ok, hnext, heq⟩⟩ :=
        step_advance_eq_some hsome
      · cases heq
        rcases hstranded.of_advance hnext with hbefore | ⟨value, ⟨⟩⟩
        · obtain ⟨value, _, hrecording⟩ := hsound.stranded hbefore
          rw [hheld] at hrecording
          cases hrecording
          simp only [Transport.advance, Pc.atBlock, Transport.proceed] at hnext
          simp only [Bool.false_eq_true, false_and, and_false, if_false] at hnext
          split_ifs at hnext <;> cases hnext
        · exact ⟨value, cancelled, rfl⟩
      · cases heq
        rcases hstranded.of_advance hnext with hbefore | ⟨value, ⟨⟩⟩
        obtain ⟨value, _, hrecording⟩ := hsound.stranded hbefore
        rw [hheld] at hrecording
        cases hrecording
        simp only [Transport.advance, Pc.atBlock, Transport.proceed] at hnext
        simp only [Bool.false_eq_true, false_and, and_false, if_false] at hnext
        split_ifs at hnext with hcancelled
        · subst hcancelled
          simp only [State.keepsRecord, hheld, decide_eq_true_eq] at hkeeps
          exact absurd hkeeps hbefore.1
        · cases hnext
          exact absurd rfl hstranded.1

/-- A cancelled switch that does not record leaves the port behind, with the mutex free. -/
theorem State.Invariant.lost {s next : State} {action : Action} (hinv : s.Invariant)
    (hstep : machine.step s action = some next) (hloses : ¬ s.keepsRecord action = true) :
    next.holder = none ∧ next.transport.Stranded := by
  obtain ⟨ended, hsome⟩ := machine_step_eq_some hstep
  unfold State.keepsRecord at hloses
  split at hloses
  · next answer =>
      split at hloses
      · next value hheld =>
          have hport : s.transport.port ≠ none := by simpa using hloses
          have hserver : s.transport.server = none := (hinv.holds _ hheld).2.2
          have hnext : s.transport.advance true answer (.recording value) =
              some (s.transport, .ended false) := by
            simp [Transport.advance, Transport.proceed, Pc.atBlock]
          have hended := step_ended hheld hnext
          rw [hended] at hsome
          cases hsome
          exact ⟨rfl, hport, hserver⟩
      · exact absurd rfl hloses
  · exact absurd rfl hloses

/-- In every run: whenever the mutex is free, a request can be answered without a switch of
the mode, if and only if no switch was cancelled between the stop of a server and the record
of the mode. -/
theorem serves_throughout_iff {last : State} {actions : List Action}
    (hrun : machine.run State.initial actions = some last) :
    machine.Throughout (fun s => s.holder = none → s.Serves) State.initial actions ↔
      machine.RunMeets (fun s action => s.keepsRecord action = true) State.initial actions := by
  refine machine.throughout_iff (I := State.Sound)
    (fun _ _ _ hsound hstep hkeeps => hsound.afterStep hstep hkeeps) ?_ ?_ sound_initial hrun
  · intro s hsound hfree
    refine hsound.serves hfree ?_
    intro hstranded
    obtain ⟨value, cancelled, hheld⟩ := hsound.stranded hstranded
    rw [hfree] at hheld
    cases hheld
  · intro s action next hsound hstep hloses hserves
    obtain ⟨hfree, hstranded⟩ := hsound.toInvariant.lost hstep hloses
    exact State.not_serves hfree hstranded (hserves hfree)

theorem serves_throughout_iff_switchTwice :
    ∃ last, machine.run State.initial switchTwice = some last ∧
      (machine.Throughout (fun s => s.holder = none → s.Serves) State.initial switchTwice ↔
        machine.RunMeets (fun s action => s.keepsRecord action = true) State.initial
          switchTwice) := by
  have hrun : machine.run State.initial switchTwice =
      some ⟨⟨true, some 1, none, some 1, [⟨0, false, false⟩, ⟨1, true, true⟩], none, 2, none⟩,
        none⟩ := by decide
  exact ⟨_, hrun, serves_throughout_iff hrun⟩

end KotlinPbTransport

end NativeInterop
