import NativeInterop.FfiHosts
import Mathlib.Tactic

/-!
# The callback state of the JNI bridge

`start_streaming` and `j_agent_session_start` allocate a `CallbackState` with a
global reference to the Kotlin listener and pass it to a start export.  It is
released in two places: in the start function when the export returns no id, and in
`ffi_token_callback` when the token is final.  A session whose pump ends without
writing the final marker is released in neither.
-/

namespace NativeInterop

namespace Jni

open Ffi

/-- A `CallbackState`: how often its global reference was deleted, how often it was
freed, and whether it was read after that. -/
structure CallbackState where
  deletedRefs : ℕ
  frees : ℕ
  dangling : Bool
  deriving DecidableEq, Repr

namespace CallbackState

def allocate : CallbackState := ⟨0, 0, false⟩

def dereference (st : CallbackState) : CallbackState :=
  { st with dangling := st.dangling || decide (0 < st.frees) }

/-- `DeleteGlobalRef` on the listener, then `free`. -/
def release (st : CallbackState) : CallbackState :=
  { st.dereference with deletedRefs := st.deletedRefs + 1, frees := st.frees + 1 }

end CallbackState

/-- `ffi_token_callback`: the listener is called, and a final token releases the
state. -/
def ffiTokenCallback (token : InferenceToken) (st : CallbackState) : CallbackState :=
  if token.isFinal then st.dereference.release else st.dereference

/-- The end of `start_streaming` and of `j_agent_session_start`. -/
def afterStart (started : Bool) (st : CallbackState) : CallbackState :=
  if started then st else st.release

/-- The bridge does nothing with the state on its own. -/
def callbackOps : HostOps CallbackState Empty where
  initial := .allocate
  onToken := ffiTokenCallback
  onReturn := afterStart
  act := fun act _ => act.elim

/-! ## What is released in every run -/

/-- How often a state is to be released by now: once for a final token, or once for
a start that failed. -/
def releases (returned : Bool) : Option (List InferenceToken) → ℕ
  | some delivered => delivered.countP InferenceToken.isFinal
  | none => returned.toNat

structure Released (st : CallbackState) (returned : Bool)
    (view : Option (List InferenceToken)) : Prop where
  frees_eq : st.frees = releases returned view
  refs_eq : st.deletedRefs = st.frees
  alive : st.dangling = false

theorem Released.dereference {st : CallbackState} {returned : Bool}
    {view : Option (List InferenceToken)} (hreleased : Released st returned view)
    (hnone : releases returned view = 0) : st.dereference = st := by
  have hfrees : st.frees = 0 := hreleased.frees_eq.trans hnone
  have halive : (st.dangling || decide (0 < st.frees)) = st.dangling := by simp [hfrees]
  rw [CallbackState.dereference, halive]

theorem callback_hostRule : Hosted.HostRule callbackOps Released where
  initial := ⟨rfl, rfl, rfl⟩
  created := fun _ hreleased => ⟨hreleased.frees_eq, hreleased.refs_eq, hreleased.alive⟩
  token := by
    intro st returned delivered token fragments hstream hreleased
    have hnone : delivered.countP InferenceToken.isFinal = 0 :=
      InferenceOrchestrator.countP_isFinal_init hstream
    have hsame := hreleased.dereference hnone
    have hfrees : st.frees = 0 := hreleased.frees_eq.trans hnone
    have hrefs : st.deletedRefs = 0 := hreleased.refs_eq.trans hfrees
    change Released (ffiTokenCallback token st) _ _
    cases hfinal : token.isFinal with
    | true =>
        simp only [ffiTokenCallback, hfinal, if_true, hsame, CallbackState.release]
        constructor
        · simp [releases, List.countP_append, hnone, hfrees, hfinal]
        · simp [hfrees, hrefs]
        · exact hreleased.alive
    | false =>
        simp only [ffiTokenCallback, hfinal, Bool.false_eq_true, if_false, hsame]
        refine ⟨?_, hreleased.refs_eq, hreleased.alive⟩
        simp [releases, List.countP_append, hnone, hfrees, hfinal]
  started := fun _ _ hreleased => ⟨hreleased.frees_eq, hreleased.refs_eq, hreleased.alive⟩
  failed := by
    intro st hreleased
    have hsame := hreleased.dereference rfl
    have hfrees : st.frees = 0 := hreleased.frees_eq
    change Released (afterStart false st) _ _
    simp only [afterStart, Bool.false_eq_true, if_false, CallbackState.release, hsame]
    constructor
    · simp [releases, hfrees]
    · simp [hreleased.refs_eq]
    · exact hreleased.alive
  act := fun _ _ _ act => act.elim

/-! ## Sessions that keep their final marker -/

/-- The step does not end the pump while the final marker is still to be written:
no catch clause of `PumpAsync` is reached before that. -/
def keepsFinal (session : InferenceSession) : PumpAct → Bool
  | .fetch => session.pump ≠ .fetching [] || !session.faults
  | .cancelFetch => session.unwritten = [] && !session.faults
  | .enterWrite => !session.cancelled
  | .write => true
  | .cancelWrite => false

def endsWithFinal (s : State) : Act → Bool
  | .pump n act => (s.bridge.sessions[n]?).all fun entry => keepsFinal entry.session act
  | _ => true

/-- Nothing of the generation has been dropped, and a pump that has ended did not
fault. -/
structure Kept (entry : FfiSession) : Prop where
  sound : entry.Sound
  whole : ∃ generation,
    entry.taken ++ entry.session.pending = InferenceOrchestrator.run generation ∧
      entry.session.faults = generation.faults
  ended : entry.session.pump = .done → entry.session.faults = false

theorem keepsFinal_cases {session next : InferenceSession} {act : PumpAct}
    (hstep : session.pumpStep act = some next) (hkeeps : keepsFinal session act = true) :
    next.pending = session.pending ∧ next.faults = session.faults ∧
      (next.pump = .done → session.faults = false) := by
  unfold InferenceSession.pumpStep at hstep
  split at hstep
  · next token rest hpump =>
      cases hstep
      simp [InferenceSession.pending, InferenceSession.unwritten, hpump]
  · next hpump =>
      cases hstep
      have hfaults : session.faults = false := by simpa [keepsFinal, hpump] using hkeeps
      simp [InferenceSession.pending, InferenceSession.unwritten, InferenceSession.complete,
        BoundedChannel.tryComplete, hpump, hfaults]
  · next rest hpump =>
      split_ifs at hstep
      cases hstep
      obtain ⟨hrest, hfaults⟩ : rest = [] ∧ session.faults = false := by
        simpa [keepsFinal, InferenceSession.unwritten, hpump] using hkeeps
      simp [InferenceSession.pending, InferenceSession.unwritten, InferenceSession.complete,
        BoundedChannel.tryComplete, hpump, hrest, hfaults]
  · next token rest hpump =>
      have huncancelled : session.cancelled = false := by
        simpa [keepsFinal] using hkeeps
      rw [huncancelled] at hstep
      cases hstep
      simp [InferenceSession.pending, InferenceSession.unwritten, hpump]
  · next token rest hpump =>
      obtain ⟨channel, hwrite, rfl⟩ := Option.map_eq_some_iff.mp hstep
      obtain ⟨hitems, _⟩ := BoundedChannel.tryWrite_eq_some hwrite
      simp [InferenceSession.pending, InferenceSession.unwritten, hpump, hitems]
  · cases hkeeps
  · cases hstep

theorem Kept.pumpStep {entry next : FfiSession} {act : PumpAct} (hkept : Kept entry)
    (hkeeps : keepsFinal entry.session act = true)
    (hmove : entry.pumpStep act = some next) : Kept next := by
  have hsound := hkept.sound.pumpStep hmove
  obtain ⟨session, hstep, rfl⟩ := Option.map_eq_some_iff.mp hmove
  obtain ⟨hpending, hfaults, hdone⟩ := keepsFinal_cases hstep hkeeps
  obtain ⟨generation, hwhole, hgeneration⟩ := hkept.whole
  constructor
  · exact hsound
  · refine ⟨generation, ?_, hfaults.trans hgeneration⟩
    rw [← hwhole, ← hpending]
    rfl
  · intro hnext
    exact hfaults.trans (hdone hnext)

theorem kept_drainRule : DrainRule Kept where
  create := by
    intro generation
    refine ⟨create_sound generation, ⟨generation, ?_, rfl⟩, ?_⟩
    · simp [FfiSession.create, FfiSession.taken, Drain.held, InferenceSession.start,
        InferenceSession.startBounded, InferenceSession.pending, InferenceSession.unwritten,
        BoundedChannel.create]
    · intro hdone
      cases hdone
  untouched := by
    intro entry next hkept huntouched
    have htaken : next.taken = entry.taken := by
      rw [FfiSession.taken, FfiSession.taken, huntouched.delivered_eq, huntouched.drain_eq]
    obtain ⟨hpending, hfaults, hpump⟩ : next.session.pending = entry.session.pending ∧
        next.session.faults = entry.session.faults ∧
        next.session.pump = entry.session.pump := by
      rcases huntouched.session_eq with heq | heq <;> rw [heq] <;> exact ⟨rfl, rfl, rfl⟩
    refine ⟨hkept.sound.untouched huntouched, ?_, ?_⟩
    · rw [htaken, hpending, hfaults]
      exact hkept.whole
    · rw [hpump, hfaults]
      exact hkept.ended
  schedule := by
    intro entry hkept hdrain
    refine ⟨hkept.sound.schedule hdrain, ?_, hkept.ended⟩
    obtain ⟨generation, hwhole, hfaults⟩ := hkept.whole
    refine ⟨generation, ?_, hfaults⟩
    simpa [FfiSession.taken, FfiSession.schedule, Drain.held, hdrain] using hwhole
  read := by
    intro entry next hkept hmove
    have hsound := hkept.sound.read hmove
    unfold FfiSession.read at hmove
    split at hmove
    · next token session hdrain hread =>
        cases hmove
        obtain ⟨hpending, hpump, _, _, hfaults, _⟩ := InferenceSession.read_eq_some hread
        obtain ⟨generation, hwhole, hgeneration⟩ := hkept.whole
        refine ⟨hsound, ⟨generation, ?_, hfaults.trans hgeneration⟩, ?_⟩
        · rw [← hwhole, hpending]
          simp [FfiSession.taken, Drain.held, hdrain]
        · intro hdone
          exact hfaults.trans (hkept.ended (hpump ▸ hdone))
    · cases hmove
  invoke := by
    intro entry next hkept hmove
    have hsound := hkept.sound.invoke hmove
    unfold FfiSession.invoke at hmove
    split at hmove
    · next token hdrain =>
        cases hmove
        obtain ⟨generation, hwhole, hfaults⟩ := hkept.whole
        refine ⟨hsound, ⟨generation, ?_, hfaults⟩, hkept.ended⟩
        simpa [FfiSession.taken, Drain.held, hdrain] using hwhole
    · cases hmove
  endDrain := by
    intro entry next hkept hmove
    have hsound := hkept.sound.endDrain hmove
    unfold FfiSession.endDrain at hmove
    split_ifs at hmove with hend
    cases hmove
    obtain ⟨generation, hwhole, hfaults⟩ := hkept.whole
    refine ⟨hsound, ⟨generation, ?_, hfaults⟩, hkept.ended⟩
    simpa [FfiSession.taken, Drain.held, hend.1] using hwhole

/-- Once pump and drain have ended, the callback has seen exactly one final token. -/
theorem Kept.countP_isFinal {entry : FfiSession} (hkept : Kept entry)
    (hpump : entry.session.pump = .done) (hdrain : entry.drain = .done) :
    entry.delivered.countP InferenceToken.isFinal = 1 := by
  obtain ⟨generation, hwhole, hfaults⟩ := hkept.whole
  have hpending : entry.session.pending = [] := by
    simp [InferenceSession.pending, InferenceSession.unwritten, hpump,
      (hkept.sound.ended hdrain).1]
  have hrun : entry.delivered = InferenceOrchestrator.stream generation.fragments := by
    have hheld : entry.drain.held = [] := by simp [hdrain, Drain.held]
    rw [hpending, List.append_nil, FfiSession.taken, hheld, List.append_nil,
      InferenceOrchestrator.run_eq, ← hfaults, hkept.ended hpump] at hwhole
    exact hwhole
  rw [hrun, List.countP_eq_length_filter, InferenceOrchestrator.filter_isFinal_stream]
  rfl

theorem delivered_countP_le {entry : FfiSession} (hsound : entry.Sound) :
    entry.delivered.countP InferenceToken.isFinal ≤ 1 := by
  obtain ⟨generation, hdelivers⟩ := hsound.delivers
  have hstream : entry.delivered <+: InferenceOrchestrator.stream generation.fragments :=
    ((List.prefix_append _ _).trans ((List.prefix_append _ _).trans hdelivers.isPrefix)).trans
      (InferenceOrchestrator.run_isPrefix_stream generation)
  calc
    entry.delivered.countP InferenceToken.isFinal ≤
        (InferenceOrchestrator.stream generation.fragments).countP InferenceToken.isFinal :=
      hstream.sublist.countP_le
    _ = 1 := by
      rw [List.countP_eq_length_filter, InferenceOrchestrator.filter_isFinal_stream]
      rfl

/-- In every run a callback state is read only while it is allocated and released at
most once, and a failed start has released it; when no pump ends without its final
marker, a session that is over has released it. -/
theorem callback_state_released_once {acts : List (HostAct Empty)} {s : Hosted CallbackState}
    (hrun : (Hosted.machine callbackOps).run .initial acts = some s) :
    ∀ object ∈ s.objects,
      (object.value.dangling = false ∧ object.value.frees ≤ 1 ∧
        object.value.deletedRefs = object.value.frees) ∧
      (object.returned = true → object.session = none → object.value.frees = 1) ∧
      (machine.RunMeets (fun s a => endsWithFinal s a = true) .initial
          (acts.flatMap fun a => a.export?.toList) →
        ∀ n entry, object.session = some n → s.ffi.bridge.sessions[n]? = some entry →
          entry.session.pump = .done → entry.drain = .done →
          object.value.frees = 1 ∧ object.value.deletedRefs = 1) := by
  have hinv := Hosted.invariant_of_run callback_hostRule hrun
  intro object hmem
  have hreleased := hinv.related object hmem
  have hsessions : ∀ n entry, object.session = some n →
      s.ffi.bridge.sessions[n]? = some entry →
      Hosted.view s.ffi object = some entry.delivered := by
    intro n entry hsession hentry
    simp [Hosted.view, hsession, hentry]
  refine ⟨⟨hreleased.alive, ?_, hreleased.refs_eq⟩, ?_, ?_⟩
  · rw [hreleased.frees_eq]
    cases hsession : object.session with
    | none =>
        simp only [Hosted.view, hsession, Option.map_none, releases]
        exact Bool.toNat_le object.returned
    | some n =>
        obtain ⟨_, hlt⟩ := (hinv.linked object hmem).late n hsession
        have hentry := List.getElem?_eq_getElem hlt
        rw [hsessions n _ hsession hentry]
        exact delivered_countP_le (hinv.drains.entries _ (List.mem_of_getElem? hentry))
  · intro hreturned hsession
    rw [hreleased.frees_eq, hreturned]
    simp [Hosted.view, hsession, releases]
  · intro hmeets n entry hsession hentry hpump hdrain
    have hkept : DrainInvariant Kept s.ffi := by
      refine machine.run_invariant ?_ (drainInvariant_initial Kept) hmeets
        (Hosted.run_ffi hrun)
      intro before act after hbefore hkeeps hstep
      refine hbefore.step kept_drainRule ?_ hstep
      rintro m pumpAct kept next rfl hkeptEntry hmove hentryKept
      refine hentryKept.pumpStep ?_ hmove
      simpa [endsWithFinal, hkeptEntry] using hkeeps
    have hone : object.value.frees = 1 := by
      rw [hreleased.frees_eq, hsessions n entry hsession hentry]
      exact (hkept.entries entry (List.mem_of_getElem? hentry)).countP_isFinal hpump hdrain
    exact ⟨hone, hreleased.refs_eq.trans hone⟩

/-- `dni_initialize`, then a start that has scheduled its drain and returned its
id. -/
def startedRun (generation : Generation) : List (HostAct Empty) :=
  [.ffi (.call .initEngine), .ffi (.advance 0), .start .session true generation,
    .ffi (.advance 1), .ffi (.advance 1), .ffi (.advance 1), .ffi (.advance 1),
    .ffi (.advance 1), .ffi (.advance 1), .ffi (.advance 1), .finish 0]

/-- One token goes from the model to the callback. -/
def tokenRun : List (HostAct Empty) :=
  [.ffi (.pump 0 .fetch), .ffi (.pump 0 .enterWrite), .ffi (.pump 0 .write),
    .ffi (.read 0), .ffi (.invoke 0)]

/-- A session to its end, with one fragment and the final marker. -/
def wholeRun : List (HostAct Empty) :=
  startedRun ⟨["all "], false⟩ ++ tokenRun ++ tokenRun ++
    [.ffi (.pump 0 .fetch), .ffi (.endDrain 0)]

theorem callback_state_released_whole :
    ∃ s object, (Hosted.machine callbackOps).run .initial wholeRun = some s ∧
      s.objects[0]? = some object ∧ object.value.frees = 1 ∧
      object.value.deletedRefs = 1 := by
  obtain ⟨s, object, entry, hrun, hobject, hsession, hentry, hpump, hdrain⟩ :
      ∃ s object entry, (Hosted.machine callbackOps).run .initial wholeRun = some s ∧
        s.objects[0]? = some object ∧ object.session = some 0 ∧
        s.ffi.bridge.sessions[0]? = some entry ∧ entry.session.pump = .done ∧
        entry.drain = .done :=
    ⟨_, _, _, rfl, rfl, rfl, rfl, rfl, rfl⟩
  have hcheck : machine.check endsWithFinal .initial
      (wholeRun.flatMap fun a => a.export?.toList) = true := by
    rfl
  have hreleased := callback_state_released_once hrun object (List.mem_of_getElem? hobject)
  exact ⟨s, object, hrun, hobject, hreleased.2.2 (machine.runMeets_of_check hcheck) 0 entry
    hsession hentry hpump hdrain⟩

/-- The host cancels and frees the session before its first token: pump and drain
end, and nobody releases the callback state. -/
def abandonedRun : List (HostAct Empty) :=
  startedRun ⟨["all "], false⟩ ++
    [.ffi (.call (.cancel 1)), .ffi (.advance 2), .ffi (.advance 2),
      .ffi (.call (.free 1)), .ffi (.advance 3), .ffi (.advance 3), .ffi (.advance 3),
      .ffi (.pump 0 .cancelFetch), .ffi (.advance 3), .ffi (.advance 3),
      .ffi (.endDrain 0)]

/-- The model throws after its first fragment. -/
def faultedRun : List (HostAct Empty) :=
  startedRun ⟨["all "], true⟩ ++ tokenRun ++ [.ffi (.pump 0 .fetch), .ffi (.endDrain 0)]

/-- After the run the first session is over, and its state has not been released. -/
def Leaks (acts : List (HostAct Empty)) : Prop :=
  ∃ s object entry,
    (Hosted.machine callbackOps).run .initial acts = some s ∧
      s.objects[0]? = some object ∧ object.session = some 0 ∧ object.returned = true ∧
      s.ffi.bridge.sessions[0]? = some entry ∧ entry.session.pump = .done ∧
      entry.drain = .done ∧ object.value = .allocate

theorem callback_state_leaked : Leaks abandonedRun ∧ Leaks faultedRun := by
  constructor
  · exact ⟨_, _, _, rfl, rfl, rfl, rfl, rfl, rfl, rfl, rfl⟩
  · exact ⟨_, _, _, rfl, rfl, rfl, rfl, rfl, rfl, rfl, rfl⟩

end Jni

end NativeInterop
