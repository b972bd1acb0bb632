import NativeInterop.FfiSessions
import Mathlib.Tactic

/-!
# What the callback of a session is given

In every run of the exports, whatever else goes on, the tokens a session's callback
was invoked with are the beginning of one generation, in order and without a gap:
the drain is scheduled once, holds at most one token, and ends only at the end of
the channel.
-/

namespace NativeInterop

namespace Ffi

def Drain.held : Drain → List InferenceToken
  | .holding token => [token]
  | _ => []

/-- What the drain has taken out of the channel. -/
def FfiSession.taken (entry : FfiSession) : List InferenceToken :=
  entry.delivered ++ entry.drain.held

/-- A step of a call leaves the drain of a session and its tokens alone; it may
cancel the session. -/
structure Untouched (before after : FfiSession) : Prop where
  session_eq : after.session = before.session ∨ after.session = before.session.cancel
  drain_eq : after.drain = before.drain
  delivered_eq : after.delivered = before.delivered

theorem Untouched.refl (entry : FfiSession) : Untouched entry entry :=
  ⟨Or.inl rfl, rfl, rfl⟩

/-! ## One session with its drain -/

/-- The session and its drain hand out this generation. -/
def FfiSession.Delivers (generation : Generation) (entry : FfiSession) : Prop :=
  entry.session.Delivers 64 generation entry.taken

section Moves

variable {generation : Generation} {entry next : FfiSession}

theorem create_delivers (generation : Generation) :
    (FfiSession.create generation).Delivers generation :=
  InferenceSession.startBounded_delivers 64 generation

theorem FfiSession.Delivers.pumpStep {act : PumpAct} (hdelivers : entry.Delivers generation)
    (hmove : entry.pumpStep act = some next) : next.Delivers generation := by
  obtain ⟨session, hstep, rfl⟩ := Option.map_eq_some_iff.mp hmove
  exact InferenceSession.Delivers.pumpStep hdelivers hstep

theorem FfiSession.Delivers.read (hdelivers : entry.Delivers generation)
    (hmove : entry.read = some next) : next.Delivers generation := by
  unfold FfiSession.read at hmove
  split at hmove
  · next token session hdrain hread =>
      cases hmove
      have hafter := InferenceSession.Delivers.read hdelivers hread
      simpa [FfiSession.Delivers, FfiSession.taken, Drain.held, hdrain] using hafter
  · cases hmove

theorem FfiSession.Delivers.invoke (hdelivers : entry.Delivers generation)
    (hmove : entry.invoke = some next) : next.Delivers generation := by
  unfold FfiSession.invoke at hmove
  split at hmove
  · next token hdrain =>
      cases hmove
      simpa [FfiSession.Delivers, FfiSession.taken, Drain.held, hdrain] using hdelivers
  · cases hmove

theorem FfiSession.Delivers.endDrain (hdelivers : entry.Delivers generation)
    (hmove : entry.endDrain = some next) : next.Delivers generation := by
  unfold FfiSession.endDrain at hmove
  split_ifs at hmove with hend
  cases hmove
  simpa [FfiSession.Delivers, FfiSession.taken, Drain.held, hend.1] using hdelivers

theorem FfiSession.Delivers.schedule (hdelivers : entry.Delivers generation)
    (hdrain : entry.drain = .unscheduled) : entry.schedule.Delivers generation := by
  simpa [FfiSession.Delivers, FfiSession.taken, FfiSession.schedule, Drain.held, hdrain]
    using hdelivers

theorem FfiSession.Delivers.untouched (hdelivers : entry.Delivers generation)
    (huntouched : Untouched entry next) : next.Delivers generation := by
  have htaken : next.taken = entry.taken := by
    rw [FfiSession.taken, FfiSession.taken, huntouched.delivered_eq, huntouched.drain_eq]
  unfold FfiSession.Delivers
  rw [htaken]
  rcases huntouched.session_eq with heq | heq
  · rw [heq]
    exact hdelivers
  · rw [heq]
    exact InferenceSession.Delivers.cancel hdelivers

structure FfiSession.Sound (entry : FfiSession) : Prop where
  delivers : ∃ generation, entry.Delivers generation
  ended : entry.drain = .done → entry.session.ended

theorem create_sound (generation : Generation) : (FfiSession.create generation).Sound where
  delivers := ⟨generation, create_delivers generation⟩
  ended := by simp [FfiSession.create]

theorem FfiSession.Sound.pumpStep {act : PumpAct} (hsound : entry.Sound)
    (hmove : entry.pumpStep act = some next) : next.Sound := by
  obtain ⟨generation, hdelivers⟩ := hsound.delivers
  refine ⟨⟨generation, hdelivers.pumpStep hmove⟩, ?_⟩
  obtain ⟨session, hstep, rfl⟩ := Option.map_eq_some_iff.mp hmove
  intro hdone
  have hended := hsound.ended hdone
  have hpump : entry.session.pump = .done := by
    by_contra hrunning
    exact hended.2 (InferenceSession.Delivers.completion_none hdelivers hrunning)
  rw [InferenceSession.pumpStep_done act hpump] at hstep
  cases hstep

theorem FfiSession.Sound.read (hsound : entry.Sound) (hmove : entry.read = some next) :
    next.Sound := by
  obtain ⟨generation, hdelivers⟩ := hsound.delivers
  refine ⟨⟨generation, hdelivers.read hmove⟩, ?_⟩
  unfold FfiSession.read at hmove
  split at hmove
  · cases hmove
    intro hdone
    cases hdone
  · cases hmove

theorem FfiSession.Sound.invoke (hsound : entry.Sound) (hmove : entry.invoke = some next) :
    next.Sound := by
  obtain ⟨generation, hdelivers⟩ := hsound.delivers
  refine ⟨⟨generation, hdelivers.invoke hmove⟩, ?_⟩
  unfold FfiSession.invoke at hmove
  split at hmove
  · cases hmove
    intro hdone
    cases hdone
  · cases hmove

theorem FfiSession.Sound.endDrain (hsound : entry.Sound)
    (hmove : entry.endDrain = some next) : next.Sound := by
  obtain ⟨generation, hdelivers⟩ := hsound.delivers
  refine ⟨⟨generation, hdelivers.endDrain hmove⟩, ?_⟩
  unfold FfiSession.endDrain at hmove
  split_ifs at hmove with hend
  cases hmove
  exact fun _ => hend.2

theorem FfiSession.Sound.schedule (hsound : entry.Sound)
    (hdrain : entry.drain = .unscheduled) : entry.schedule.Sound := by
  obtain ⟨generation, hdelivers⟩ := hsound.delivers
  refine ⟨⟨generation, hdelivers.schedule hdrain⟩, ?_⟩
  intro hdone
  cases hdone

theorem FfiSession.Sound.untouched (hsound : entry.Sound)
    (huntouched : Untouched entry next) : next.Sound := by
  obtain ⟨generation, hdelivers⟩ := hsound.delivers
  refine ⟨⟨generation, hdelivers.untouched huntouched⟩, ?_⟩
  intro hdone
  have hended := hsound.ended (huntouched.drain_eq ▸ hdone)
  rcases huntouched.session_eq with heq | heq
  · rw [heq]
    exact hended
  · rw [heq]
    exact hended

end Moves

/-! ## The steps of a call -/

/-- The call is a start that has created the session and not yet scheduled its
drain. -/
def Thread.beforeDrain (n : ℕ) : Thread → Bool
  | .startNumber session => session = n
  | .startRegister session _ => session = n
  | .startTrack session _ => session = n
  | .startDrain session _ => session = n
  | _ => false

/-- One step of a call, as far as the sessions are concerned. -/
inductive SessionEffect (bridge : Bridge) : Thread → Bridge → Thread → Prop where
  | untouched {thread after : Thread} {next : Bridge}
      (hsessions : Evolves Untouched (fun _ => False) bridge.sessions next.sessions)
      (hbefore : ∀ n, after.beforeDrain n = thread.beforeDrain n) :
      SessionEffect bridge thread next after
  | create (kind : StartKind) (generation : Generation) :
      SessionEffect bridge (.startCreate kind generation)
        { bridge with sessions := bridge.sessions ++ [.create generation] }
        (.startNumber bridge.sessions.length)
  | schedule (session id : ℕ) :
      SessionEffect bridge (.startDrain session id)
        (bridge.modifySession session .schedule) (.startReturn id)

theorem evolves_modify_untouched (bridge : Bridge) (n : ℕ)
    {update : FfiSession → FfiSession} (hupdate : ∀ entry, Untouched entry (update entry)) :
    Evolves Untouched (fun _ => False) bridge.sessions
      (bridge.modifySession n update).sessions :=
  Evolves.modify Untouched.refl fun entry _ => hupdate entry

theorem evolves_refl_untouched (sessions : List FfiSession) :
    Evolves Untouched (fun _ => False) sessions sessions :=
  Evolves.refl Untouched.refl sessions

theorem cancel_untouched (entry : FfiSession) : Untouched entry entry.cancel :=
  ⟨Or.inr rfl, rfl, rfl⟩

theorem dispose_untouched (entry : FfiSession) : Untouched entry entry.dispose :=
  ⟨Or.inl rfl, rfl, rfl⟩

theorem release_untouched (entry : FfiSession) : Untouched entry entry.release :=
  ⟨Or.inl rfl, rfl, rfl⟩

theorem releaseRegistered_untouched (entry : FfiSession) :
    Untouched entry entry.releaseRegistered := by
  unfold FfiSession.releaseRegistered
  split_ifs
  · exact release_untouched entry
  · exact Untouched.refl entry

theorem advance_sessionEffect {bridge next : Bridge} {thread after : Thread}
    (hadvance : bridge.advance thread = some (next, after)) :
    SessionEffect bridge thread next after := by
  cases thread with
  | startCheck kind validArguments generation =>
      simp only [Bridge.advance] at hadvance
      split_ifs at hadvance <;> cases hadvance <;>
        exact .untouched (evolves_refl_untouched _) fun _ => rfl
  | startCreate kind generation =>
      simp only [Bridge.advance] at hadvance
      split_ifs at hadvance
      · cases hadvance
        exact .create kind generation
      · cases hadvance
        exact .untouched (evolves_refl_untouched _) fun _ => rfl
  | startRegister session id =>
      cases hadvance
      exact .untouched
        (evolves_modify_untouched bridge session fun _ => ⟨Or.inl rfl, rfl, rfl⟩) fun _ => rfl
  | startDrain session id =>
      cases hadvance
      exact .schedule session id
  | cancelLookup id =>
      simp only [Bridge.advance] at hadvance
      split at hadvance <;> cases hadvance <;>
        exact .untouched (evolves_refl_untouched _) fun _ => rfl
  | cancelSession session =>
      cases hadvance
      exact .untouched (evolves_modify_untouched bridge session cancel_untouched) fun _ => rfl
  | freeRemove id =>
      simp only [Bridge.advance] at hadvance
      split at hadvance <;> cases hadvance <;>
        exact .untouched (evolves_refl_untouched _) fun _ => rfl
  | freeCancel id session =>
      cases hadvance
      exact .untouched (evolves_modify_untouched bridge session cancel_untouched) fun _ => rfl
  | freeAwait id session =>
      simp only [Bridge.advance] at hadvance
      split_ifs at hadvance
      cases hadvance
      exact .untouched (evolves_modify_untouched bridge session dispose_untouched) fun _ => rfl
  | freeReturn id session =>
      cases hadvance
      exact .untouched (evolves_modify_untouched bridge session release_untouched) fun _ => rfl
  | shutdownRemove ids pending =>
      cases ids with
      | nil =>
          cases hadvance
          exact .untouched (evolves_refl_untouched _) fun _ => rfl
      | cons id ids =>
          simp only [Bridge.advance] at hadvance
          split at hadvance <;> cases hadvance <;>
            exact .untouched (evolves_refl_untouched _) fun _ => rfl
  | shutdownCancel session ids pending =>
      cases hadvance
      exact .untouched (evolves_modify_untouched bridge session cancel_untouched) fun _ => rfl
  | shutdownAwait pending =>
      cases pending with
      | nil =>
          cases hadvance
          exact .untouched (evolves_refl_untouched _) fun _ => rfl
      | cons session pending =>
          simp only [Bridge.advance] at hadvance
          split_ifs at hadvance
          cases hadvance
          exact .untouched (evolves_modify_untouched bridge session dispose_untouched)
            fun _ => rfl
  | shutdownReturn =>
      cases hadvance
      exact .untouched (Evolves.map fun entry _ => releaseRegistered_untouched entry)
        fun _ => rfl
  | started id => cases hadvance
  | freed id status => cases hadvance
  | returned status => cases hadvance
  | _ =>
      cases hadvance
      exact .untouched (evolves_refl_untouched _) fun _ => rfl

/-! ## The drains in every run -/

/-- A property of single sessions that only the pump can break. -/
structure DrainRule (I : FfiSession → Prop) : Prop where
  create : ∀ generation, I (.create generation)
  untouched : ∀ entry next, I entry → Untouched entry next → I next
  schedule : ∀ entry : FfiSession, I entry → entry.drain = .unscheduled → I entry.schedule
  read : ∀ entry next : FfiSession, I entry → entry.read = some next → I next
  invoke : ∀ entry next : FfiSession, I entry → entry.invoke = some next → I next
  endDrain : ∀ entry next : FfiSession, I entry → entry.endDrain = some next → I next

theorem sound_drainRule : DrainRule FfiSession.Sound where
  create := create_sound
  untouched := fun _ _ hsound huntouched => hsound.untouched huntouched
  schedule := fun _ hsound hdrain => hsound.schedule hdrain
  read := fun _ _ hsound hmove => hsound.read hmove
  invoke := fun _ _ hsound hmove => hsound.invoke hmove
  endDrain := fun _ _ hsound hmove => hsound.endDrain hmove

structure DrainInvariant (I : FfiSession → Prop) (s : State) : Prop where
  once : ∀ n, s.threads.countP (Thread.beforeDrain n) ≤ 1
  unscheduled : ∀ thread ∈ s.threads, ∀ n, thread.beforeDrain n = true →
    ∃ entry, s.bridge.sessions[n]? = some entry ∧ entry.drain = .unscheduled
  entries : ∀ entry ∈ s.bridge.sessions, I entry

section Runs

variable {I : FfiSession → Prop} {s t : State}

theorem drainInvariant_initial (I : FfiSession → Prop) : DrainInvariant I .initial := by
  constructor <;> simp [State.initial]

theorem DrainInvariant.fresh (hinv : DrainInvariant I s) :
    s.threads.countP (Thread.beforeDrain s.bridge.sessions.length) = 0 := by
  rw [List.countP_eq_zero]
  intro thread hthread hbefore
  obtain ⟨entry, hentry, _⟩ := hinv.unscheduled thread hthread _ hbefore
  simp at hentry

/-- A thread stays on its side of the drain, and the sessions keep theirs. -/
theorem DrainInvariant.untouched {i : ℕ} {thread after : Thread} {bridge : Bridge}
    (hinv : DrainInvariant I s) (hrule : DrainRule I) (hthread : s.threads[i]? = some thread)
    (hsessions : Evolves Untouched (fun _ => False) s.bridge.sessions bridge.sessions)
    (hbefore : ∀ n, after.beforeDrain n = thread.beforeDrain n) :
    DrainInvariant I ⟨bridge, s.threads.set i after⟩ := by
  constructor
  · intro n
    have hcount := countP_set_of_getElem? after (Thread.beforeDrain n) hthread
    have honce := hinv.once n
    rw [hbefore n] at hcount
    change (s.threads.set i after).countP (Thread.beforeDrain n) ≤ 1
    omega
  · intro other hother n hdrain
    have hold : ∃ entry, s.bridge.sessions[n]? = some entry ∧ entry.drain = .unscheduled := by
      rcases List.mem_or_eq_of_mem_set hother with hin | rfl
      · exact hinv.unscheduled other hin n hdrain
      · exact hinv.unscheduled thread (List.mem_of_getElem? hthread) n (hbefore n ▸ hdrain)
    obtain ⟨entry, hentry, hunscheduled⟩ := hold
    obtain ⟨next, hnext, huntouched⟩ := hsessions.kept n entry hentry
    exact ⟨next, hnext, huntouched.drain_eq.trans hunscheduled⟩
  · exact hsessions.forall_mem
      (fun entry next huntouched hentry => hrule.untouched entry next hentry huntouched)
      (fun _ hfalse => hfalse.elim) hinv.entries

/-- The thread that creates a session is the one before its drain. -/
theorem DrainInvariant.create {i : ℕ} {kind : StartKind} {generation : Generation}
    (hinv : DrainInvariant I s) (hrule : DrainRule I)
    (hthread : s.threads[i]? = some (.startCreate kind generation)) :
    DrainInvariant I
      ⟨{ s.bridge with sessions := s.bridge.sessions ++ [.create generation] },
        s.threads.set i (.startNumber s.bridge.sessions.length)⟩ := by
  constructor
  · intro n
    have hcount := countP_set_of_getElem? (.startNumber s.bridge.sessions.length)
      (Thread.beforeDrain n) hthread
    have honce := hinv.once n
    have hfresh := hinv.fresh
    simp only [Thread.beforeDrain, Bool.false_eq_true, if_false, decide_eq_true_eq] at hcount
    change (s.threads.set i (.startNumber _)).countP (Thread.beforeDrain n) ≤ 1
    by_cases hnew : s.bridge.sessions.length = n
    · subst hnew
      simp only [if_true] at hcount
      omega
    · simp only [hnew, if_false] at hcount
      omega
  · intro other hother n hdrain
    rcases List.mem_or_eq_of_mem_set hother with hin | rfl
    · obtain ⟨entry, hentry, hunscheduled⟩ := hinv.unscheduled other hin n hdrain
      have hlt := (List.getElem?_eq_some_iff.mp hentry).1
      exact ⟨entry, by rw [List.getElem?_append_left hlt, hentry], hunscheduled⟩
    · obtain rfl : s.bridge.sessions.length = n := by
        simpa [Thread.beforeDrain] using hdrain
      exact ⟨.create generation, by simp, rfl⟩
  · intro entry hentry
    rcases List.mem_append.mp hentry with hold | hnew
    · exact hinv.entries entry hold
    · rw [List.mem_singleton.mp hnew]
      exact hrule.create generation

/-- The thread that schedules a drain was the only one before it, and is behind it now. -/
theorem DrainInvariant.behind {i session id : ℕ} (hinv : DrainInvariant I s)
    (hthread : s.threads[i]? = some (.startDrain session id)) :
    (s.threads.set i (.startReturn id)).countP (Thread.beforeDrain session) = 0 := by
  have hself : (Thread.startDrain session id).beforeDrain session = true := by
    simp [Thread.beforeDrain]
  have hcount := countP_set_of_getElem? (.startReturn id) (Thread.beforeDrain session) hthread
  have honce := hinv.once session
  rw [if_pos hself] at hcount
  simp only [Thread.beforeDrain, Bool.false_eq_true, if_false] at hcount
  omega

theorem DrainInvariant.schedule {i session id : ℕ} (hinv : DrainInvariant I s)
    (hrule : DrainRule I) (hthread : s.threads[i]? = some (.startDrain session id)) :
    DrainInvariant I
      ⟨s.bridge.modifySession session .schedule, s.threads.set i (.startReturn id)⟩ := by
  obtain ⟨scheduled, hscheduled, hdrain⟩ :=
    hinv.unscheduled _ (List.mem_of_getElem? hthread) session (by simp [Thread.beforeDrain])
  constructor
  · intro n
    have hcount := countP_set_of_getElem? (.startReturn id) (Thread.beforeDrain n) hthread
    have honce := hinv.once n
    simp only [Thread.beforeDrain, Bool.false_eq_true, if_false] at hcount
    change (s.threads.set i (.startReturn id)).countP (Thread.beforeDrain n) ≤ 1
    omega
  · intro other hother n hbefore
    rcases List.mem_or_eq_of_mem_set hother with hin | rfl
    · obtain ⟨entry, hentry, hunscheduled⟩ := hinv.unscheduled other hin n hbefore
      have hne : session ≠ n := by
        rintro rfl
        exact List.countP_eq_zero.mp (hinv.behind hthread) other hother hbefore
      refine ⟨entry, ?_, hunscheduled⟩
      simp [Bridge.modifySession, hne, hentry]
    · cases hbefore
  · have hevolves : Evolves (fun before after => I before → I after)
        (fun _ => False) s.bridge.sessions
        (s.bridge.modifySession session .schedule).sessions := by
      apply Evolves.modify (fun _ hkeep => hkeep)
      intro entry hentry hholds
      rw [hscheduled] at hentry
      cases hentry
      exact hrule.schedule scheduled hholds hdrain
    exact hevolves.forall_mem (fun _ _ hkeep => hkeep) (fun _ hfalse => hfalse.elim)
      hinv.entries

theorem DrainInvariant.advance {i : ℕ} (hinv : DrainInvariant I s) (hrule : DrainRule I)
    (hstep : s.advance i = some t) : DrainInvariant I t := by
  obtain ⟨thread, hthread, hmap⟩ := Option.bind_eq_some_iff.mp hstep
  obtain ⟨⟨bridge, after⟩, hadvance, rfl⟩ := Option.map_eq_some_iff.mp hmap
  cases advance_sessionEffect hadvance with
  | untouched hsessions hbefore => exact hinv.untouched hrule hthread hsessions hbefore
  | create kind generation => exact hinv.create hrule hthread
  | schedule session id => exact hinv.schedule hrule hthread

theorem DrainInvariant.stepSession {n : ℕ} {move : FfiSession → Option FfiSession}
    (hinv : DrainInvariant I s)
    (hmove : ∀ entry next, s.bridge.sessions[n]? = some entry → move entry = some next →
      I entry → I next)
    (hdrain : ∀ entry next, move entry = some next → entry.drain = .unscheduled →
      next.drain = .unscheduled)
    (hstep : s.stepSession n move = some t) : DrainInvariant I t := by
  obtain ⟨bridge, hbridge, rfl⟩ := Option.map_eq_some_iff.mp hstep
  obtain ⟨entry, hentry, hmap⟩ := Option.bind_eq_some_iff.mp hbridge
  obtain ⟨next, hnext, rfl⟩ := Option.map_eq_some_iff.mp hmap
  have hevolves : Evolves
      (fun before after => (I before → I after) ∧
        (before.drain = .unscheduled → after.drain = .unscheduled))
      (fun _ => False) s.bridge.sessions (s.bridge.sessions.set n next) :=
    Evolves.set (fun _ => ⟨id, id⟩) hentry
      ⟨hmove entry next hentry hnext, hdrain entry next hnext⟩
  constructor
  · exact hinv.once
  · intro thread hthread m hbefore
    obtain ⟨before, hbeforeEntry, hunscheduled⟩ := hinv.unscheduled thread hthread m hbefore
    obtain ⟨after, hafter, hkeep⟩ := hevolves.kept m before hbeforeEntry
    exact ⟨after, hafter, hkeep.2 hunscheduled⟩
  · exact hevolves.forall_mem (fun before after hkeep => hkeep.1)
      (fun _ hfalse => hfalse.elim) hinv.entries

/-- The step rule: what the pump keeps along a run holds of every session. -/
theorem DrainInvariant.step {a : Act} (hinv : DrainInvariant I s) (hrule : DrainRule I)
    (hpump : ∀ n act entry next, a = .pump n act → s.bridge.sessions[n]? = some entry →
      entry.pumpStep act = some next → I entry → I next)
    (hstep : machine.step s a = some t) : DrainInvariant I t := by
  cases a with
  | call call =>
      obtain rfl := Option.some.inj hstep
      have hentry : ∀ n, call.entry.beforeDrain n = false := by
        intro n
        cases call <;> rfl
      constructor
      · intro n
        simpa [List.countP_append, hentry n] using hinv.once n
      · intro thread hthread n hbefore
        rcases List.mem_append.mp hthread with hold | hnew
        · exact hinv.unscheduled thread hold n hbefore
        · rw [List.mem_singleton.mp hnew, hentry n] at hbefore
          cases hbefore
      · exact hinv.entries
  | advance i => exact hinv.advance hrule hstep
  | pump n act =>
      refine hinv.stepSession (fun entry next => hpump n act entry next rfl) ?_ hstep
      intro entry next hmove hunscheduled
      obtain ⟨session, _, rfl⟩ := Option.map_eq_some_iff.mp hmove
      exact hunscheduled
  | read n =>
      refine hinv.stepSession
        (fun entry next _ hmove hholds => hrule.read entry next hholds hmove) ?_ hstep
      intro entry next hmove hunscheduled
      simp [FfiSession.read, hunscheduled] at hmove
  | invoke n =>
      refine hinv.stepSession
        (fun entry next _ hmove hholds => hrule.invoke entry next hholds hmove) ?_ hstep
      intro entry next hmove hunscheduled
      simp [FfiSession.invoke, hunscheduled] at hmove
  | endDrain n =>
      refine hinv.stepSession
        (fun entry next _ hmove hholds => hrule.endDrain entry next hholds hmove) ?_ hstep
      intro entry next hmove hunscheduled
      simp [FfiSession.endDrain, hunscheduled] at hmove

theorem DrainInvariant.step_sound {a : Act} (hinv : DrainInvariant FfiSession.Sound s)
    (hstep : machine.step s a = some t) : DrainInvariant FfiSession.Sound t :=
  hinv.step sound_drainRule (fun _ _ _ _ _ _ hmove hsound => hsound.pumpStep hmove) hstep

end Runs

end Ffi

end NativeInterop
