import NativeInterop.Evolution
import NativeInterop.LlamaHost
import Mathlib.Tactic

/-!
# Generations and freed handles

A call never runs on a freed handle as long as `Reset` frees it when no session
on it may still generate and no session captures it afterwards.  This rests on
one fact: a session that may not generate never will, whatever it, its host and
the other sessions do.
-/

namespace NativeInterop

namespace Llama

/-! ## What a step does to a session -/

/-- The handle stays, and a session that could not generate still cannot. -/
structure Narrows (before after : Session) : Prop where
  handle : after.handle = before.handle
  may : after.mayGenerate = true → before.mayGenerate = true

theorem Narrows.refl (session : Session) : Narrows session session := ⟨rfl, id⟩

theorem Session.mayGenerate_of_running {session : Session}
    (hrunning : session.running = true) : session.mayGenerate = true := by
  unfold running at hrunning
  unfold mayGenerate
  cases hcall : session.call with
  | running batch => rfl
  | absent => simp [hcall] at hrunning
  | queued => simp [hcall] at hrunning
  | ended => simp [hcall] at hrunning
  | dropped => simp [hcall] at hrunning

/-- Everything a step of a session can do to it and to the memory of its context:
the managed side moves on, the native call is scheduled, stops, begins, decodes
its batch, or samples. -/
inductive Session.Moves (n : ℕ) (memory : List Kv) (session : Session) :
    Session → List Kv → Prop where
  | managed (tracked : Bool) {cancelled : Bool} {iterator : Iterator}
      (hcancelled : session.cancelled = true → cancelled = true)
      (hiterator : iterator = .retrieving → session.iterator = .retrieving) :
      Moves n memory session
        { session with tracked := tracked, cancelled := cancelled, iterator := iterator }
        memory
  | scheduled (hretrieving : session.iterator = .retrieving)
      (habsent : session.call = .absent) (hhandle : session.handle ≠ none) :
      Moves n memory session
        { session with
          iterator := .streaming
          call := if session.cancelled then .dropped else .queued } memory
  | stopped {call : NativeCall} (hcall : call = .ended ∨ call = .dropped) :
      Moves n memory session { session with call := call } memory
  | begun (hqueued : session.call = .queued) (hcancelled : session.cancelled = false) :
      Moves n memory session { session with call := .running (some session.prompt) } []
  | decoded {batch : String} (hcall : session.call = .running (some batch)) :
      Moves n memory session { session with call := .running none }
        (memory ++ [⟨n, batch⟩])
  | sampled (piece : String) (hcall : session.call = .running none) :
      Moves n memory session
        { session with
          call := .running (some piece)
          samples := session.samples ++ [(piece, memory)] } memory

theorem step_moves {n : ℕ} {memory after : List Kv} {session next : Session}
    {act : SessionAct} (hstep : session.step n memory act = some (next, after)) :
    session.Moves n memory next after := by
  cases act with
  | track =>
      simp only [Session.step] at hstep
      split_ifs at hstep
      cases hstep
      exact .managed true id id
  | untrack =>
      cases hstep
      exact .managed false id id
  | cancel =>
      simp only [Session.step] at hstep
      split_ifs at hstep
      cases hstep
      exact .managed session.tracked (fun _ => rfl) id
  | retrieveFails =>
      simp only [Session.step] at hstep
      split_ifs at hstep
      cases hstep
      exact .managed session.tracked id (by simp)
  | schedule =>
      simp only [Session.step] at hstep
      by_cases hready : session.iterator = .retrieving ∧ session.call = .absent ∧
          session.handle ≠ none
      · rw [if_pos hready] at hstep
        cases hstep
        exact .scheduled hready.1 hready.2.1 hready.2.2
      · rw [if_neg hready] at hstep
        cases hstep
  | drop =>
      simp only [Session.step] at hstep
      split_ifs at hstep
      cases hstep
      exact .stopped (Or.inr rfl)
  | begin =>
      simp only [Session.step] at hstep
      split_ifs at hstep with hqueued
      cases hstep
      exact .begun hqueued.1 hqueued.2
  | decode =>
      simp only [Session.step] at hstep
      split at hstep
      · next batch hcall =>
          split_ifs at hstep
          cases hstep
          exact .decoded hcall
      · cases hstep
  | sample piece =>
      simp only [Session.step] at hstep
      split_ifs at hstep with hcall
      cases hstep
      exact .sampled piece hcall
  | finish =>
      simp only [Session.step] at hstep
      split_ifs at hstep
      cases hstep
      exact .stopped (Or.inl rfl)
  | abandon =>
      simp only [Session.step] at hstep
      split_ifs at hstep
      cases hstep
      exact .managed session.tracked id (by simp)
  | complete =>
      simp only [Session.step] at hstep
      split_ifs at hstep
      cases hstep
      exact .managed session.tracked id (by simp)

theorem Session.Moves.narrows {n : ℕ} {memory after : List Kv} {session next : Session}
    (hmoves : session.Moves n memory next after) : Narrows session next := by
  cases hmoves with
  | @managed tracked cancelled iterator hcancelled hiterator =>
      constructor
      · rfl
      · unfold Session.mayGenerate
        cases session.call with
        | running batch => exact id
        | queued =>
            cases hbefore : session.cancelled with
            | false => simp
            | true => simp [hcancelled hbefore]
        | absent =>
            cases hbefore : session.cancelled with
            | false =>
                simp only [Bool.and_eq_true, decide_eq_true_eq]
                exact fun hafter => ⟨rfl, hiterator hafter.2⟩
            | true => simp [hcancelled hbefore]
        | ended => exact id
        | dropped => exact id
  | scheduled hretrieving habsent hhandle =>
      constructor
      · rfl
      · cases hcancelled : session.cancelled <;>
          simp [Session.mayGenerate, hretrieving, habsent, hcancelled]
  | stopped hcall =>
      constructor
      · rfl
      · rcases hcall with rfl | rfl <;> simp [Session.mayGenerate]
  | begun hqueued hcancelled =>
      exact ⟨rfl, by simp [Session.mayGenerate, hqueued, hcancelled]⟩
  | decoded hcall => exact ⟨rfl, by simp [Session.mayGenerate, hcall]⟩
  | sampled piece hcall => exact ⟨rfl, by simp [Session.mayGenerate, hcall]⟩

theorem step_narrows {n : ℕ} {memory after : List Kv} {session next : Session}
    {act : SessionAct} (hstep : session.step n memory act = some (next, after)) :
    Narrows session next :=
  (step_moves hstep).narrows

/-! ## What a step of a call does to the host -/

def Disposes (before after : Session) : Prop :=
  after = before ∨ after = Host.dispose before

theorem Disposes.refl (session : Session) : Disposes session session := Or.inl rfl

/-- `dni_initialize` and `dni_shutdown` touch a session only to dispose it, never
the memory of a context, and free a handle only in `Reset`. -/
structure HostStep (thread : Thread) (before after : Host) : Prop where
  sessions : Evolves Disposes (fun _ => False) before.sessions after.sessions
  memory : after.memory = before.memory
  freed : ∀ h ∈ after.freed, h ∈ before.freed ∨
    thread = .resetDispose ∧ before.ragModelDisposable = some h

theorem HostStep.of_same {thread : Thread} {before after : Host}
    (hsessions : after.sessions = before.sessions)
    (hmemory : after.memory = before.memory) (hfreed : after.freed = before.freed) :
    HostStep thread before after where
  sessions := by
    rw [hsessions]
    exact Evolves.refl Disposes.refl _
  memory := hmemory
  freed := by
    intro h hmem
    rw [hfreed] at hmem
    exact Or.inl hmem

theorem advance_hostStep {host next : Host} {i : ℕ} {thread after : Thread}
    (hadvance : host.advance i thread = some (next, after)) :
    HostStep thread host next := by
  cases thread with
  | initCheck gguf =>
      simp only [Host.advance] at hadvance
      split_ifs at hadvance <;> cases hadvance <;> exact HostStep.of_same rfl rfl rfl
  | initEnter gguf =>
      simp only [Host.advance] at hadvance
      split_ifs at hadvance
      cases hadvance
      exact HostStep.of_same rfl rfl rfl
  | initModel gguf =>
      simp only [Host.advance] at hadvance
      split_ifs at hadvance
      · cases hadvance
        exact HostStep.of_same rfl rfl rfl
      · cases gguf <;> cases hadvance <;> exact HostStep.of_same rfl rfl rfl
  | shutdownRemove ids pending =>
      cases ids with
      | nil =>
          cases hadvance
          exact HostStep.of_same rfl rfl rfl
      | cons n rest =>
          simp only [Host.advance] at hadvance
          split_ifs at hadvance
          · cases hadvance
            constructor
            · exact Evolves.modify Disposes.refl fun _ _ => Or.inr rfl
            · rfl
            · exact fun h hmem => Or.inl hmem
          · cases hadvance
            exact HostStep.of_same rfl rfl rfl
  | shutdownAwait pending =>
      cases pending with
      | nil =>
          cases hadvance
          exact HostStep.of_same rfl rfl rfl
      | cons n pending =>
          simp only [Host.advance] at hadvance
          split_ifs at hadvance
          cases hadvance
          exact HostStep.of_same rfl rfl rfl
  | resetEnter =>
      simp only [Host.advance] at hadvance
      split_ifs at hadvance
      cases hadvance
      exact HostStep.of_same rfl rfl rfl
  | resetDispose =>
      simp only [Host.advance] at hadvance
      split at hadvance
      · cases hadvance
        exact HostStep.of_same rfl rfl rfl
      · next handle hmodel =>
          cases hadvance
          constructor
          · exact Evolves.refl Disposes.refl _
          · rfl
          · intro h hmem
            rcases List.mem_append.mp hmem with hold | hnew
            · exact Or.inl hold
            · rw [List.mem_singleton.mp hnew]
              exact Or.inr ⟨rfl, hmodel⟩
  | returned => cases hadvance
  | _ =>
      cases hadvance
      exact HostStep.of_same rfl rfl rfl

theorem Disposes.narrows {before after : Session} (hdisposes : Disposes before after) :
    Narrows before after := by
  rcases hdisposes with rfl | rfl
  · exact Narrows.refl _
  · have hmoves : before.Moves 0 [] (Host.dispose before) [] :=
      .managed false (fun _ => rfl) id
    exact hmoves.narrows

/-! ## Generations and freed handles -/

def Host.idle (host : Host) (h : ℕ) : Bool :=
  host.sessions.all fun session => session.handle ≠ some h ∨ session.mayGenerate = false

/-- `Reset` frees a handle when no session on it may generate any more, and no
session starts on an orchestrator whose handle was freed. -/
def calmReset (s : State) : Act → Bool
  | .advance i =>
      match s.threads[i]? with
      | some .resetDispose => s.host.ragModelDisposable.all s.host.idle
      | _ => true
  | .start _ _ _ =>
      s.host.ragOrchestrator.all fun model => model.all fun h => h ∉ s.host.freed
  | _ => true

def FreedIdle (host : Host) : Prop :=
  ∀ session ∈ host.sessions, ∀ h, session.handle = some h → h ∈ host.freed →
    session.mayGenerate = false

theorem Host.idle_eq_true {host : Host} {h : ℕ} :
    host.idle h = true ↔ ∀ session ∈ host.sessions, session.handle = some h →
      session.mayGenerate = false := by
  simp only [Host.idle, List.all_eq_true, decide_eq_true_eq]
  constructor
  · intro hidle session hmem hhandle
    exact (hidle session hmem).resolve_left (not_not_intro hhandle)
  · intro hidle session hmem
    by_cases hhandle : session.handle = some h
    · exact Or.inr (hidle session hmem hhandle)
    · exact Or.inl hhandle

theorem Narrows.idle {x y : Session} {freed : List ℕ} (hnarrows : Narrows x y)
    (hidle : ∀ h, x.handle = some h → h ∈ freed → x.mayGenerate = false) :
    ∀ h, y.handle = some h → h ∈ freed → y.mayGenerate = false := by
  intro h hhandle hfreed
  rw [hnarrows.handle] at hhandle
  have hbefore := hidle h hhandle hfreed
  cases hmay : y.mayGenerate with
  | false => rfl
  | true =>
      rw [hnarrows.may hmay] at hbefore
      cases hbefore

theorem FreedIdle.advance {host next : Host} {thread : Thread}
    (hfreed : FreedIdle host) (hstep : HostStep thread host next)
    (hcalm : ∀ h, thread = .resetDispose → host.ragModelDisposable = some h →
      host.idle h = true) : FreedIdle next := by
  have hall : ∀ session ∈ host.sessions, ∀ h, session.handle = some h →
      h ∈ next.freed → session.mayGenerate = false := by
    intro session hmem h hhandle hnext
    rcases hstep.freed h hnext with hold | ⟨hthread, hmodel⟩
    · exact hfreed session hmem h hhandle hold
    · exact Host.idle_eq_true.mp (hcalm h hthread hmodel) session hmem hhandle
  apply hstep.sessions.forall_mem _ _ hall
  · intro x y hdisposes
    exact hdisposes.narrows.idle
  · intro y hnever
    exact hnever.elim

theorem FreedIdle.start {host next : Host} {transport : Transport} {prompt : String}
    {maxTokens : ℕ} (hfreed : FreedIdle host)
    (hstart : host.start transport prompt maxTokens = some next)
    (hcalm : host.ragOrchestrator.all (fun model => model.all fun h => h ∉ host.freed) =
      true) : FreedIdle next := by
  obtain ⟨model, hmodel, rfl⟩ := Option.map_eq_some_iff.mp hstart
  intro session hmem h hhandle hmemFreed
  rcases List.mem_append.mp hmem with hold | hnew
  · exact hfreed session hold h hhandle hmemFreed
  · rw [List.mem_singleton.mp hnew] at hhandle
    have hmodelHandle : model = some h := hhandle
    simp only [hmodel, hmodelHandle, Option.all_some, decide_eq_true_eq] at hcalm
    exact absurd hmemFreed hcalm

theorem stepSession_eq_some {host next : Host} {n : ℕ} {act : SessionAct}
    (hstep : host.stepSession n act = some next) :
    ∃ session after memory, host.sessions[n]? = some session ∧
      session.step n (host.memoryOf session.handle) act = some (after, memory) ∧
      next = { host.setMemory session.handle memory with
        sessions := host.sessions.set n after } := by
  obtain ⟨session, hsession, hmap⟩ := Option.bind_eq_some_iff.mp hstep
  obtain ⟨⟨after, memory⟩, hmove, hnext⟩ := Option.map_eq_some_iff.mp hmap
  exact ⟨session, after, memory, hsession, hmove, hnext.symm⟩

theorem FreedIdle.stepSession {host next : Host} {n : ℕ} {act : SessionAct}
    (hfreed : FreedIdle host) (hstep : host.stepSession n act = some next) :
    FreedIdle next := by
  obtain ⟨session, after, memory, hsession, hmove, rfl⟩ := stepSession_eq_some hstep
  have hevolves : Evolves Narrows (fun _ => False) host.sessions
      (host.sessions.set n after) :=
    Evolves.set Narrows.refl hsession (step_narrows hmove)
  apply hevolves.forall_mem _ _ hfreed
  · intro x y hnarrows
    exact hnarrows.idle
  · intro y hnever
    exact hnever.elim

theorem FreedIdle.step {s t : State} {a : Act} (hfreed : FreedIdle s.host)
    (hcalm : calmReset s a = true) (hstep : machine.step s a = some t) :
    FreedIdle t.host := by
  cases a with
  | initEngine gguf =>
      cases hstep
      exact hfreed
  | shutdown =>
      cases hstep
      exact hfreed
  | advance i =>
      obtain ⟨thread, hthread, hmap⟩ := Option.bind_eq_some_iff.mp hstep
      obtain ⟨⟨host, next⟩, hadvance, rfl⟩ := Option.map_eq_some_iff.mp hmap
      apply hfreed.advance (advance_hostStep hadvance)
      intro h hdispose hmodel
      subst hdispose
      simpa only [calmReset, hthread, hmodel, Option.all_some] using hcalm
  | start transport prompt maxTokens =>
      obtain ⟨host, hstart, rfl⟩ := Option.map_eq_some_iff.mp hstep
      exact hfreed.start hstart hcalm
  | session n act =>
      obtain ⟨host, hmove, rfl⟩ := Option.map_eq_some_iff.mp hstep
      exact hfreed.stepSession hmove

/-- In every run with calm resets no call runs on a freed handle: none is running
when the handle is freed, and none begins afterwards. -/
theorem no_generation_on_freed_handle {acts : List Act} {s : State}
    (hmeets : machine.RunMeets (fun s a => calmReset s a = true) .initial acts)
    (hrun : machine.run .initial acts = some s) {session : Session} {h : ℕ}
    (hmem : session ∈ s.host.sessions) (hhandle : session.handle = some h)
    (hfreed : h ∈ s.host.freed) : session.running = false := by
  have hidle : FreedIdle s.host := by
    apply machine.run_invariant (I := fun s => FreedIdle s.host) _ _ hmeets hrun
    · intro s a next hinv hcalm hstep
      exact FreedIdle.step hinv hcalm hstep
    · intro session hmem
      cases hmem
  cases hrunning : session.running with
  | false => rfl
  | true =>
      have hmay := hidle session hmem h hhandle hfreed
      rw [Session.mayGenerate_of_running hrunning] at hmay
      cases hmay

theorem step_session {s : State} {n : ℕ} {session next : Session} {memory : List Kv}
    {act : SessionAct} (hsession : s.host.sessions[n]? = some session)
    (hmove : session.step n (s.host.memoryOf session.handle) act = some (next, memory)) :
    machine.step s (.session n act) =
      some { s with host := { s.host.setMemory session.handle memory with
        sessions := s.host.sessions.set n next } } := by
  simp [machine, Llama.step, Host.stepSession, hsession, hmove]

theorem begins_of_queued {s : State} {n : ℕ} {session : Session}
    (hsession : s.host.sessions[n]? = some session) (hqueued : session.call = .queued)
    (hcancelled : session.cancelled = false) :
    ∃ t next, machine.step s (.session n .begin) = some t ∧
      t.host.sessions = s.host.sessions.set n next ∧ next.handle = session.handle ∧
      next.running = true ∧ t.host.freed = s.host.freed := by
  have hmove : session.step n (s.host.memoryOf session.handle) .begin =
      some ({ session with call := .running (some session.prompt) }, []) := by
    simp [Session.step, hqueued, hcancelled]
  exact ⟨_, _, step_session hsession hmove, rfl, rfl, rfl, rfl⟩

/-- A session that may generate can be brought to run its call by its own steps
alone. -/
theorem begins_of_mayGenerate {s : State} {n : ℕ} {session : Session}
    (hsession : s.host.sessions[n]? = some session) (hhandle : session.handle ≠ none)
    (hmay : session.mayGenerate = true) :
    ∃ acts t next, machine.run s acts = some t ∧
      t.host.sessions = s.host.sessions.set n next ∧ next.handle = session.handle ∧
      next.running = true ∧ t.host.freed = s.host.freed := by
  unfold Session.mayGenerate at hmay
  cases hcall : session.call with
  | running batch =>
      have hrunning : session.running = true := by simp [Session.running, hcall]
      refine ⟨[], s, session, rfl, ?_, rfl, hrunning, rfl⟩
      obtain ⟨hlt, hget⟩ := List.getElem?_eq_some_iff.mp hsession
      rw [← hget, List.set_getElem_self]
  | queued =>
      have hcancelled : session.cancelled = false := by simpa [hcall] using hmay
      obtain ⟨t, next, hstep, hrest⟩ := begins_of_queued hsession hcall hcancelled
      exact ⟨[.session n .begin], t, next, machine.run_cons_of_step hstep [], hrest⟩
  | absent =>
      have hready : session.cancelled = false ∧ session.iterator = .retrieving := by
        simpa [hcall] using hmay
      have hmove : session.step n (s.host.memoryOf session.handle) .schedule =
          some ({ session with iterator := .streaming, call := .queued },
            s.host.memoryOf session.handle) := by
        simp [Session.step, hcall, hready, hhandle]
      have hschedule := step_session hsession hmove
      have hlt := (List.getElem?_eq_some_iff.mp hsession).1
      obtain ⟨t, next, hbegin, hsessions, hrest⟩ :=
        begins_of_queued
          (s := { s with host := { s.host.setMemory session.handle
            (s.host.memoryOf session.handle) with
              sessions := s.host.sessions.set n
                { session with iterator := .streaming, call := .queued } } })
          (List.getElem?_set_self hlt) rfl hready.1
      refine ⟨[.session n .schedule, .session n .begin], t, next, ?_, ?_, hrest⟩
      · rw [machine.run_cons_of_step hschedule, machine.run_cons_of_step hbegin]
        rfl
      · rw [hsessions, List.set_set]
  | ended => simp [hcall] at hmay
  | dropped => simp [hcall] at hmay

/-- A step that is not calm can be followed by a call running on a freed handle. -/
theorem uncalm_step_unsafe {s t : State} {a : Act} (hstep : machine.step s a = some t)
    (hcalm : calmReset s a = false) :
    ∃ acts u session h, machine.run t acts = some u ∧ session ∈ u.host.sessions ∧
      session.handle = some h ∧ h ∈ u.host.freed ∧ session.running = true := by
  have hunsafe : ∀ (n : ℕ) (session : Session) (h : ℕ),
      t.host.sessions[n]? = some session → session.handle = some h →
      session.mayGenerate = true → h ∈ t.host.freed →
      ∃ acts u session h, machine.run t acts = some u ∧ session ∈ u.host.sessions ∧
        session.handle = some h ∧ h ∈ u.host.freed ∧ session.running = true := by
    intro n session h hsession hhandle hmay hfreed
    obtain ⟨acts, u, next, hrun, hsessions, hnext, hrunning, hsame⟩ :=
      begins_of_mayGenerate hsession (by simp [hhandle]) hmay
    have hlt := (List.getElem?_eq_some_iff.mp hsession).1
    refine ⟨acts, u, next, h, hrun, ?_, hnext.trans hhandle, hsame ▸ hfreed, hrunning⟩
    rw [hsessions]
    exact List.mem_set hlt next
  cases a with
  | initEngine gguf => cases hcalm
  | shutdown => cases hcalm
  | session n act => cases hcalm
  | advance i =>
      obtain ⟨thread, hthread, hmap⟩ := Option.bind_eq_some_iff.mp hstep
      obtain ⟨⟨host, next⟩, hadvance, rfl⟩ := Option.map_eq_some_iff.mp hmap
      simp only [calmReset, hthread] at hcalm
      cases thread with
      | resetDispose =>
          cases hmodel : s.host.ragModelDisposable with
          | none => simp [hmodel] at hcalm
          | some h =>
              simp only [Host.advance, hmodel] at hadvance
              cases hadvance
              have hbusy : ¬ s.host.idle h = true := by simpa [hmodel] using hcalm
              rw [Host.idle_eq_true] at hbusy
              push Not at hbusy
              obtain ⟨session, hmem, hhandle, hmay⟩ := hbusy
              obtain ⟨n, hsession⟩ := List.getElem?_of_mem hmem
              apply hunsafe n session h hsession hhandle
              · simpa using hmay
              · exact List.mem_append_right _ (List.mem_singleton_self h)
      | _ => cases hcalm
  | start transport prompt maxTokens =>
      obtain ⟨host, hstart, rfl⟩ := Option.map_eq_some_iff.mp hstep
      obtain ⟨model, hmodel, rfl⟩ := Option.map_eq_some_iff.mp hstart
      simp only [calmReset, hmodel, Option.all_some] at hcalm
      cases model with
      | none => simp at hcalm
      | some h =>
          apply hunsafe s.host.sessions.length
            (.create transport prompt maxTokens (some h)) h
          · exact List.getElem?_concat_length
          · rfl
          · rfl
          · simpa using hcalm

/-- The engine initialized with a model, and a question asked over the FFI whose
native call has begun. -/
def generatingRun : List Act :=
  [.initEngine .loads, .advance 0, .advance 0, .advance 0, .advance 0, .advance 0,
    .advance 0, .start .ffi "first" 64, .session 0 .track, .session 0 .schedule,
    .session 0 .begin]

/-- `dni_shutdown` up to the free, the session's iterator leaving when its token
is cancelled. -/
def shutdownRun : List Act :=
  [.shutdown, .advance 1, .advance 1, .advance 1, .session 0 .abandon, .advance 1,
    .advance 1, .advance 1, .advance 1]

theorem uncalm_step_unsafe_shutdown :
    ∃ s t, machine.run .initial (generatingRun ++ shutdownRun.dropLast) = some s ∧
      machine.step s (.advance 1) = some t ∧
      ∃ acts u session h, machine.run t acts = some u ∧ session ∈ u.host.sessions ∧
        session.handle = some h ∧ h ∈ u.host.freed ∧ session.running = true := by
  let s := (machine.run .initial (generatingRun ++ shutdownRun.dropLast)).get rfl
  have hstep : machine.step s (.advance 1) = some ((machine.step s (.advance 1)).get rfl) := rfl
  exact ⟨s, _, rfl, hstep, uncalm_step_unsafe hstep rfl⟩

/-- Shutdown drains the session and frees the handle its call still runs on. -/
theorem generation_on_freed_handle :
    ∃ s session, machine.run .initial (generatingRun ++ shutdownRun) = some s ∧
      s.host.sessions[0]? = some session ∧ session.handle = some 0 ∧
      0 ∈ s.host.freed ∧ session.running = true := by
  refine ⟨_, _, rfl, rfl, rfl, ?_, rfl⟩
  exact List.mem_singleton_self 0

/-- With the call ended before the shutdown, nothing runs on the freed handle. -/
theorem no_generation_after_calm_reset :
    ∃ s session, machine.run .initial (generatingRun ++ [.session 0 .finish] ++
        shutdownRun) = some s ∧
      s.host.sessions[0]? = some session ∧ session.handle = some 0 ∧
      0 ∈ s.host.freed ∧ session.running = false := by
  have hcheck : machine.check calmReset .initial
      (generatingRun ++ [.session 0 .finish] ++ shutdownRun) = true := by
    rfl
  refine ⟨_, _, rfl, rfl, rfl, List.mem_singleton_self 0, ?_⟩
  exact no_generation_on_freed_handle (machine.runMeets_of_check hcheck) rfl
    (List.mem_singleton_self _) rfl (List.mem_singleton_self 0)

end Llama

end NativeInterop
