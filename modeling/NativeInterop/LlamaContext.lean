import NativeInterop.LlamaHandles
import Mathlib.Tactic

/-!
# Generations and their context

All calls on a handle share its context, and each clears the memory when it
begins.  Two calls never overlap, and every piece is sampled from the prompt and
the pieces of its own request, as long as a session starts only when no other on
its handle may still generate.
-/

namespace NativeInterop

namespace Llama

/-- A session starts on a handle only when no other on it may generate. -/
def startsAlone (s : State) : Act → Bool
  | .start _ _ _ => s.host.ragOrchestrator.all fun model => model.all s.host.idle
  | _ => true

/-- What the calls of one session leave in a context of its own. -/
def Session.ownContext (n : ℕ) (session : Session) : List Kv :=
  (session.prompt :: session.samples.map Prod.fst).map (Kv.mk n)

def Session.OwnSamples (n : ℕ) (session : Session) : Prop :=
  ∀ k sample, session.samples[k]? = some sample →
    sample.2 = (session.prompt :: (session.samples.take k).map Prod.fst).map (Kv.mk n)

/-- The memory of the context as the call of session `n` has to find it. -/
def Session.InContext (n : ℕ) (memory : List Kv) (session : Session) : Prop :=
  match session.call with
  | .absent => session.samples = []
  | .queued => session.samples = [] ∧ session.handle ≠ none
  | .running (some batch) =>
      session.handle ≠ none ∧ memory ++ [⟨n, batch⟩] = session.ownContext n
  | .running none => session.handle ≠ none ∧ memory = session.ownContext n
  | .ended => True
  | .dropped => True

theorem ownSamples_append {n : ℕ} {session next : Session} {piece : String}
    {memory : List Kv} (hown : session.OwnSamples n)
    (hmemory : memory = session.ownContext n) (hprompt : next.prompt = session.prompt)
    (hsamples : next.samples = session.samples ++ [(piece, memory)]) :
    next.OwnSamples n := by
  intro k sample hsample
  rw [hsamples] at hsample ⊢
  rw [hprompt]
  by_cases hk : k < session.samples.length
  · rw [List.getElem?_append_left hk] at hsample
    rw [List.take_append_of_le_length (Nat.le_of_lt hk)]
    exact hown k sample hsample
  · rw [List.getElem?_append_right (Nat.not_lt.mp hk)] at hsample
    have hlast : k - session.samples.length = 0 := by
      by_contra hne
      obtain ⟨m, hm⟩ := Nat.exists_eq_succ_of_ne_zero hne
      rw [hm] at hsample
      cases hsample
    have hkeq : k = session.samples.length := by omega
    rw [hlast, List.getElem?_cons_zero] at hsample
    have hsampleEq := Option.some.inj hsample
    rw [← hsampleEq, hkeq, List.take_left]
    exact hmemory

/-- One step of a session in its own context keeps the context its own.  Only the
call itself moves the memory. -/
theorem Session.Moves.inContext {n : ℕ} {memory after : List Kv} {session next : Session}
    (hmoves : session.Moves n memory next after)
    (hcontext : session.InContext n memory) (hown : session.OwnSamples n) :
    next.InContext n after ∧ next.OwnSamples n ∧
      (after = memory ∨ session.mayGenerate = true ∧ session.handle ≠ none) := by
  cases hmoves with
  | managed tracked hcancelled hiterator => exact ⟨hcontext, hown, Or.inl rfl⟩
  | scheduled hretrieving habsent hhandle =>
      simp only [Session.InContext, habsent] at hcontext
      refine ⟨?_, hown, Or.inl rfl⟩
      cases session.cancelled <;> simp [Session.InContext, hcontext, hhandle]
  | stopped hcall =>
      refine ⟨?_, hown, Or.inl rfl⟩
      rcases hcall with rfl | rfl <;> trivial
  | begun hqueued hcancelled =>
      simp only [Session.InContext, hqueued] at hcontext
      refine ⟨?_, hown, Or.inr ⟨?_, hcontext.2⟩⟩
      · simp [Session.InContext, Session.ownContext, hcontext.1, hcontext.2]
      · simp [Session.mayGenerate, hqueued, hcancelled]
  | decoded hcall =>
      simp only [Session.InContext, hcall] at hcontext
      refine ⟨⟨hcontext.1, hcontext.2⟩, hown, Or.inr ⟨?_, hcontext.1⟩⟩
      simp [Session.mayGenerate, hcall]
  | sampled piece hcall =>
      simp only [Session.InContext, hcall] at hcontext
      refine ⟨?_, ownSamples_append hown hcontext.2 rfl rfl, Or.inl rfl⟩
      simp [Session.InContext, Session.ownContext, hcontext.1, hcontext.2]

def Alone (sessions : List Session) : Prop :=
  ∀ (i j : ℕ) (x y : Session) (h : ℕ), sessions[i]? = some x → sessions[j]? = some y →
    x.handle = some h → y.handle = some h →
    x.mayGenerate = true → y.mayGenerate = true → i = j

theorem Alone.narrows {before after : List Session} (halone : Alone before)
    (hevolves : Evolves Narrows (fun _ => False) before after) : Alone after := by
  intro i j x y h hx hy hxh hyh hxmay hymay
  rcases hevolves.back hx with ⟨x', hx', hxn⟩ | hnever
  · rcases hevolves.back hy with ⟨y', hy', hyn⟩ | hnever
    · exact halone i j x' y' h hx' hy' (hxn.handle ▸ hxh) (hyn.handle ▸ hyh)
        (hxn.may hxmay) (hyn.may hymay)
    · exact hnever.elim
  · exact hnever.elim

structure Exclusive (host : Host) : Prop where
  alone : Alone host.sessions
  context : ∀ (n : ℕ) (x : Session), host.sessions[n]? = some x →
    x.InContext n (host.memoryOf x.handle)
  own : ∀ (n : ℕ) (x : Session), host.sessions[n]? = some x → x.OwnSamples n

theorem Disposes.inContext {n : ℕ} {memory : ℕ → List Kv} {x y : Session}
    (hdisposes : Disposes x y)
    (hcontext : x.InContext n (x.handle.elim [] memory)) :
    y.InContext n (y.handle.elim [] memory) := by
  rcases hdisposes with rfl | rfl
  · exact hcontext
  · exact hcontext

theorem Disposes.ownSamples {n : ℕ} {x y : Session} (hdisposes : Disposes x y)
    (hown : x.OwnSamples n) : y.OwnSamples n := by
  rcases hdisposes with rfl | rfl
  · exact hown
  · exact hown

theorem Exclusive.advance {host next : Host} {thread : Thread}
    (hinv : Exclusive host) (hstep : HostStep thread host next) : Exclusive next := by
  constructor
  · exact hinv.alone.narrows (hstep.sessions.imp fun _ _ hdisposes => hdisposes.narrows)
  · intro n y hy
    rcases hstep.sessions.back hy with ⟨x, hx, hdisposes⟩ | hnever
    · unfold Host.memoryOf
      rw [hstep.memory]
      exact hdisposes.inContext (hinv.context n x hx)
    · exact hnever.elim
  · intro n y hy
    rcases hstep.sessions.back hy with ⟨x, hx, hdisposes⟩ | hnever
    · exact hdisposes.ownSamples (hinv.own n x hx)
    · exact hnever.elim

theorem Alone.append {sessions : List Session} {new : Session}
    (halone : Alone sessions)
    (hidle : ∀ x ∈ sessions, ∀ h, new.handle = some h → x.handle = some h →
      x.mayGenerate = false) : Alone (sessions ++ [new]) := by
  have hlast : ∀ (n : ℕ) (x : Session), (sessions ++ [new])[n]? = some x →
      sessions[n]? = some x ∨ n = sessions.length ∧ x = new := by
    intro n x hx
    by_cases hn : n < sessions.length
    · rw [List.getElem?_append_left hn] at hx
      exact Or.inl hx
    · rw [List.getElem?_append_right (Nat.not_lt.mp hn)] at hx
      have hlt := (List.getElem?_eq_some_iff.mp hx).1
      have hmem := List.mem_of_getElem? hx
      rw [List.length_singleton] at hlt
      exact Or.inr ⟨by omega, List.mem_singleton.mp hmem⟩
  intro i j x y h hx hy hxh hyh hxmay hymay
  rcases hlast i x hx with hxold | ⟨hi, rfl⟩
  · rcases hlast j y hy with hyold | ⟨_, rfl⟩
    · exact halone i j x y h hxold hyold hxh hyh hxmay hymay
    · rw [hidle x (List.mem_of_getElem? hxold) h hyh hxh] at hxmay
      cases hxmay
  · rcases hlast j y hy with hyold | ⟨hj, _⟩
    · rw [hidle y (List.mem_of_getElem? hyold) h hxh hyh] at hymay
      cases hymay
    · rw [hi, hj]

theorem Exclusive.start {host next : Host} {transport : Transport} {prompt : String}
    {maxTokens : ℕ} (hinv : Exclusive host)
    (hstart : host.start transport prompt maxTokens = some next)
    (halone : host.ragOrchestrator.all (fun model => model.all host.idle) = true) :
    Exclusive next := by
  obtain ⟨model, hmodel, rfl⟩ := Option.map_eq_some_iff.mp hstart
  have hevolves : Evolves Eq (Eq (Session.create transport prompt maxTokens model))
      host.sessions (host.sessions ++ [.create transport prompt maxTokens model]) :=
    Evolves.append (fun _ => rfl) _ rfl
  constructor
  · apply hinv.alone.append
    intro x hmem h hnew hhandle
    have hmodelHandle : model = some h := hnew
    simp only [hmodel, hmodelHandle, Option.all_some] at halone
    exact Host.idle_eq_true.mp halone x hmem hhandle
  · intro n y hy
    rcases hevolves.back hy with ⟨x, hx, rfl⟩ | rfl
    · exact hinv.context n x hx
    · rfl
  · intro n y hy
    rcases hevolves.back hy with ⟨x, hx, rfl⟩ | rfl
    · exact hinv.own n x hx
    · intro k sample hsample
      cases hsample

theorem memoryOf_setMemory_same (host : Host) {handle : Option ℕ} {memory : List Kv}
    (hmoved : memory = host.memoryOf handle ∨ handle ≠ none) :
    (host.setMemory handle memory).memoryOf handle = memory := by
  cases handle with
  | none =>
      rcases hmoved with rfl | hne
      · rfl
      · exact absurd rfl hne
  | some h => simp [Host.memoryOf, Host.setMemory]

theorem memoryOf_setMemory_of_ne (host : Host) {handle other : Option ℕ}
    (memory : List Kv) (hne : other ≠ handle) :
    (host.setMemory handle memory).memoryOf other = host.memoryOf other := by
  cases handle with
  | none => rfl
  | some h =>
      cases other with
      | none => rfl
      | some k =>
          have hk : k ≠ h := fun heq => hne (heq ▸ rfl)
          simp [Host.memoryOf, Host.setMemory, hk]

/-- The memory says nothing about a session that may not generate. -/
theorem inContext_of_idle {n : ℕ} {memory after : List Kv} {session : Session}
    (hcontext : session.InContext n memory) (hidle : session.mayGenerate = false) :
    session.InContext n after := by
  unfold Session.InContext at hcontext ⊢
  unfold Session.mayGenerate at hidle
  cases hcall : session.call with
  | running batch => simp [hcall] at hidle
  | absent => simpa [hcall] using hcontext
  | queued => simpa [hcall] using hcontext
  | ended => trivial
  | dropped => trivial

theorem Exclusive.stepSession {host next : Host} {n : ℕ} {act : SessionAct}
    (hinv : Exclusive host) (hstep : host.stepSession n act = some next) :
    Exclusive next := by
  obtain ⟨session, after, memory, hsession, hmove, rfl⟩ := stepSession_eq_some hstep
  obtain ⟨hcontext, hown, hmoved⟩ :=
    (step_moves hmove).inContext (hinv.context n session hsession)
      (hinv.own n session hsession)
  have hnarrows := step_narrows hmove
  have hlt := (List.getElem?_eq_some_iff.mp hsession).1
  have hother : ∀ (m : ℕ) (y : Session), (host.sessions.set n after)[m]? = some y →
      m = n ∧ y = after ∨ m ≠ n ∧ host.sessions[m]? = some y := by
    intro m y hy
    rw [List.getElem?_set] at hy
    by_cases hm : n = m
    · rw [if_pos hm, if_pos (hm ▸ hlt)] at hy
      exact Or.inl ⟨hm.symm, (Option.some.inj hy).symm⟩
    · rw [if_neg hm] at hy
      exact Or.inr ⟨Ne.symm hm, hy⟩
  constructor
  · exact hinv.alone.narrows (Evolves.set Narrows.refl hsession hnarrows)
  · intro m y hy
    rcases hother m y hy with ⟨rfl, rfl⟩ | ⟨hm, hold⟩
    · have hsame : (host.setMemory session.handle memory).memoryOf session.handle =
          memory := by
        apply memoryOf_setMemory_same
        rcases hmoved with hkept | ⟨_, hhandle⟩
        · exact Or.inl hkept
        · exact Or.inr hhandle
      rw [hnarrows.handle]
      exact hsame.symm ▸ hcontext
    · have hbefore := hinv.context m y hold
      by_cases hshared : y.handle = session.handle
      · rcases hmoved with hkept | ⟨hmay, hhandle⟩
        · have hsame := memoryOf_setMemory_same host (Or.inl hkept)
          rw [hshared] at hbefore ⊢
          rw [← hkept] at hbefore
          exact hsame.symm ▸ hbefore
        · apply inContext_of_idle hbefore
          cases hymay : y.mayGenerate with
          | false => rfl
          | true =>
              obtain ⟨h, hh⟩ := Option.ne_none_iff_exists'.mp hhandle
              exact absurd (hinv.alone m n y session h hold hsession
                (hshared.trans hh) hh hymay hmay) hm
      · have hkept := memoryOf_setMemory_of_ne host memory hshared
        exact hkept.symm ▸ hbefore
  · intro m y hy
    rcases hother m y hy with ⟨rfl, rfl⟩ | ⟨_, hold⟩
    · exact hown
    · exact hinv.own m y hold

theorem Exclusive.step {s t : State} {a : Act} (hinv : Exclusive s.host)
    (halone : startsAlone s a = true) (hstep : machine.step s a = some t) :
    Exclusive t.host := by
  cases a with
  | initEngine gguf =>
      cases hstep
      exact hinv
  | shutdown =>
      cases hstep
      exact hinv
  | advance i =>
      obtain ⟨thread, hthread, hmap⟩ := Option.bind_eq_some_iff.mp hstep
      obtain ⟨⟨host, next⟩, hadvance, rfl⟩ := Option.map_eq_some_iff.mp hmap
      exact hinv.advance (advance_hostStep hadvance)
  | start transport prompt maxTokens =>
      obtain ⟨host, hstart, rfl⟩ := Option.map_eq_some_iff.mp hstep
      exact hinv.start hstart halone
  | session n act =>
      obtain ⟨host, hmove, rfl⟩ := Option.map_eq_some_iff.mp hstep
      exact hinv.stepSession hmove

theorem exclusive_initial : Exclusive State.initial.host where
  alone := by simp [Alone, State.initial]
  context := by simp [State.initial]
  own := by simp [State.initial]

/-- In every run whose sessions start alone, no two calls run on one handle, and
every piece was sampled from the prompt and the pieces of its own request. -/
theorem one_generation_per_context {acts : List Act} {s : State}
    (hmeets : machine.RunMeets (fun s a => startsAlone s a = true) .initial acts)
    (hrun : machine.run .initial acts = some s) :
    (∀ (i j : ℕ) (x y : Session) (h : ℕ), s.host.sessions[i]? = some x →
      s.host.sessions[j]? = some y → x.handle = some h → y.handle = some h →
      x.running = true → y.running = true → i = j) ∧
    ∀ (n : ℕ) (x : Session), s.host.sessions[n]? = some x → x.OwnSamples n := by
  have hinv : Exclusive s.host := by
    apply machine.run_invariant (I := fun s => Exclusive s.host) _ _ hmeets hrun
    · intro s a next hinv halone hstep
      exact Exclusive.step hinv halone hstep
    · exact exclusive_initial
  constructor
  · intro i j x y h hx hy hxh hyh hxrun hyrun
    exact hinv.alone i j x y h hx hy hxh hyh (Session.mayGenerate_of_running hxrun)
      (Session.mayGenerate_of_running hyrun)
  · exact hinv.own

/-- A start that is not alone can be followed by two calls running on one handle. -/
theorem crowded_start_overlaps {s t : State} {a : Act}
    (hstep : machine.step s a = some t) (halone : startsAlone s a = false) :
    ∃ (acts : List Act) (u : State) (i j : ℕ) (x y : Session) (h : ℕ),
      machine.run t acts = some u ∧ i ≠ j ∧
      u.host.sessions[i]? = some x ∧ u.host.sessions[j]? = some y ∧
      x.handle = some h ∧ y.handle = some h ∧ x.running = true ∧ y.running = true := by
  cases a with
  | initEngine gguf => cases halone
  | shutdown => cases halone
  | session n act => cases halone
  | advance i => cases halone
  | start transport prompt maxTokens =>
      obtain ⟨host, hstart, rfl⟩ := Option.map_eq_some_iff.mp hstep
      obtain ⟨model, hmodel, rfl⟩ := Option.map_eq_some_iff.mp hstart
      simp only [startsAlone, hmodel, Option.all_some] at halone
      cases model with
      | none => simp at halone
      | some h =>
          have hbusy : ¬ s.host.idle h = true := by simpa using halone
          rw [Host.idle_eq_true] at hbusy
          push Not at hbusy
          obtain ⟨session, hmem, hhandle, hmay⟩ := hbusy
          obtain ⟨n, hsession⟩ := List.getElem?_of_mem hmem
          have hlt := (List.getElem?_eq_some_iff.mp hsession).1
          have hfirst : (s.host.sessions ++
              [Session.create transport prompt maxTokens (some h)])[n]? = some session := by
            rw [List.getElem?_append_left hlt, hsession]
          obtain ⟨acts, t, x, hrun, hsessions, hx, hxrunning, _⟩ :=
            begins_of_mayGenerate
              (s := ⟨{ s.host with sessions := s.host.sessions ++
                [.create transport prompt maxTokens (some h)] }, s.threads⟩)
              hfirst (by simp [hhandle]) (by simpa using hmay)
          have hsecond : t.host.sessions[s.host.sessions.length]? =
              some (.create transport prompt maxTokens (some h)) := by
            rw [hsessions, List.getElem?_set_ne (Nat.ne_of_lt hlt)]
            exact List.getElem?_concat_length
          obtain ⟨more, u, y, hmore, hset, hy, hyrunning, _⟩ :=
            begins_of_mayGenerate hsecond (by simp [Session.create]) rfl
          refine ⟨acts ++ more, u, n, s.host.sessions.length, x, y, h, ?_,
            Nat.ne_of_lt hlt, ?_, ?_, hx.trans hhandle, hy, hxrunning, hyrunning⟩
          · rw [machine.run_append_of_run hrun]
            exact hmore
          · rw [hset, List.getElem?_set_ne (Nat.ne_of_gt hlt), hsessions]
            exact List.getElem?_set_self (by rw [List.length_append]; omega)
          · rw [hset]
            exact List.getElem?_set_self (List.getElem?_eq_some_iff.mp hsecond).1

theorem crowded_start_overlaps_abandoned :
    ∃ s t, machine.run .initial (generatingRun ++
        [.session 0 .decode, .session 0 .cancel, .session 0 .abandon]) = some s ∧
      machine.step s (.start .http "second" 64) = some t ∧
      ∃ (acts : List Act) (u : State) (i j : ℕ) (x y : Session) (h : ℕ),
        machine.run t acts = some u ∧ i ≠ j ∧
        u.host.sessions[i]? = some x ∧ u.host.sessions[j]? = some y ∧
        x.handle = some h ∧ y.handle = some h ∧ x.running = true ∧ y.running = true := by
  let s := (machine.run .initial (generatingRun ++
    [.session 0 .decode, .session 0 .cancel, .session 0 .abandon])).get rfl
  have hstep : machine.step s (.start .http "second" 64) =
      some ((machine.step s (.start .http "second" 64)).get rfl) := rfl
  exact ⟨s, _, rfl, hstep, crowded_start_overlaps hstep rfl⟩

/-- The first question decoded, cancelled and abandoned, and a second one asked
over the same handle. -/
def askAgainRun : List Act :=
  [.session 0 .decode, .session 0 .cancel, .session 0 .abandon,
    .start .http "second" 64, .session 1 .schedule, .session 1 .begin,
    .session 1 .decode, .session 0 (.sample "late")]

/-- Both calls run on the handle, and the first samples a piece from the prompt of
the second. -/
theorem generations_overlap :
    ∃ s x y, machine.run .initial (generatingRun ++ askAgainRun) = some s ∧
      s.host.sessions[0]? = some x ∧ s.host.sessions[1]? = some y ∧
      x.handle = some 0 ∧ y.handle = some 0 ∧ x.running = true ∧ y.running = true ∧
      x.samples = [("late", [⟨1, "second"⟩])] ∧ ¬ x.OwnSamples 0 := by
  refine ⟨_, _, _, rfl, rfl, rfl, rfl, rfl, rfl, rfl, rfl, ?_⟩
  intro hown
  have hfirst := hown 0 ("late", [⟨1, "second"⟩]) rfl
  revert hfirst
  decide

/-- With the first call ended before the second question, the second samples from
its own prompt. -/
theorem one_generation_after_another :
    ∃ s y, machine.run .initial (generatingRun ++
        [.session 0 .finish, .start .http "second" 64, .session 1 .schedule,
          .session 1 .begin, .session 1 .decode, .session 1 (.sample "piece")]) =
      some s ∧ s.host.sessions[1]? = some y ∧ y.OwnSamples 1 ∧
      y.samples = [("piece", [⟨1, "second"⟩])] := by
  have hcheck : machine.check startsAlone .initial (generatingRun ++
      [.session 0 .finish, .start .http "second" 64, .session 1 .schedule,
        .session 1 .begin, .session 1 .decode, .session 1 (.sample "piece")]) =
      true := by
    rfl
  have hrun := one_generation_per_context (machine.runMeets_of_check hcheck) rfl
  exact ⟨_, _, rfl, rfl, hrun.2 1 _ rfl, rfl⟩

end Llama

end NativeInterop
