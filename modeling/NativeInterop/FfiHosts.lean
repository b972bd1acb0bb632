import NativeInterop.FfiDelivery
import Mathlib.Tactic

/-!
# The host side of a session

A host allocates an object before it calls a start export and passes it as
`user_data`; the drain of the session hands every token to it, and the function of
the host that made the call looks at the result when the export returns.  What the
host does at these moments is a parameter; the rule at the end of this file carries
a relation between the object and what its session has delivered through every run.
-/

namespace NativeInterop

namespace Ffi

/-- A host's object: how it begins, what the callback does with a token, what the
calling function does when the export returns an id or a status, and what the host
does on its own. -/
structure HostOps (β α : Type*) where
  initial : β
  onToken : InferenceToken → β → β
  onReturn : Bool → β → β
  act : α → β → Option β

structure HostObject (β : Type*) where
  call : ℕ
  session : Option ℕ
  returned : Bool
  value : β

structure Hosted (β : Type*) where
  ffi : State
  objects : List (HostObject β)

inductive HostAct (α : Type*) where
  | start (kind : StartKind) (validArguments : Bool) (generation : Generation)
  | ffi (act : Act)
  | finish (object : ℕ)
  | host (object : ℕ) (act : α)

namespace Hosted

variable {β α : Type*}

def initial : Hosted β where
  ffi := .initial
  objects := []

/-- The token the drain of a session is about to invoke the callback with. -/
def heldToken (ffi : State) (n : ℕ) : Option InferenceToken :=
  (ffi.bridge.sessions[n]?).bind fun entry => entry.drain.held.head?

/-- What a step of the exports means for an object: its call has created a session,
or the drain of its session invokes the callback. -/
def attend (ops : HostOps β α) (before after : State) (act : Act)
    (object : HostObject β) : HostObject β :=
  match act with
  | .advance i =>
      match after.threads[i]? with
      | some (.startNumber n) =>
          if object.call = i then { object with session := some n } else object
      | _ => object
  | .invoke n =>
      if object.session = some n then
        { object with
          value := (heldToken before n).elim object.value fun token =>
            ops.onToken token object.value }
      else object
  | _ => object

/-- The result the calling function sees: an id, or a status. -/
def result (ffi : State) (call : ℕ) : Option Bool :=
  match ffi.threads[call]? with
  | some (.started _) => some true
  | some (.returned _) => some false
  | _ => none

def step (ops : HostOps β α) (s : Hosted β) : HostAct α → Option (Hosted β)
  | .start kind validArguments generation =>
      (Ffi.step s.ffi (.call (.start kind validArguments generation))).map fun ffi =>
        { ffi := ffi
          objects := s.objects ++ [⟨s.ffi.threads.length, none, false, ops.initial⟩] }
  | .ffi (.call (.start _ _ _)) => none
  | .ffi act =>
      (Ffi.step s.ffi act).map fun ffi =>
        { ffi := ffi, objects := s.objects.map (attend ops s.ffi ffi act) }
  | .finish k =>
      (s.objects[k]?).bind fun object =>
        if object.returned then none
        else (result s.ffi object.call).map fun ok =>
          { s with
            objects := s.objects.set k
              { object with returned := true, value := ops.onReturn ok object.value } }
  | .host k act =>
      (s.objects[k]?).bind fun object =>
        (ops.act act object.value).map fun value =>
          { s with objects := s.objects.set k { object with value := value } }

def machine (ops : HostOps β α) : Machine (Hosted β) (HostAct α) := ⟨step ops⟩

end Hosted

/-- What the exports see of an action of the host. -/
def HostAct.export? {α : Type*} : HostAct α → Option Act
  | .start kind validArguments generation => some (.call (.start kind validArguments generation))
  | .ffi act => some act
  | .finish _ => none
  | .host _ _ => none

theorem Hosted.step_ffi {β α : Type*} {ops : HostOps β α} {s t : Hosted β} {a : HostAct α}
    (hstep : Hosted.step ops s a = some t) :
    Ffi.machine.run s.ffi a.export?.toList = some t.ffi := by
  have hone : ∀ {act : Act}, Ffi.step s.ffi act = some t.ffi →
      Ffi.machine.run s.ffi [act] = some t.ffi := fun hact =>
    (Ffi.machine.run_cons_of_step hact []).trans rfl
  unfold Hosted.step at hstep
  split at hstep
  · obtain ⟨ffi, hffi, rfl⟩ := Option.map_eq_some_iff.mp hstep
    exact hone hffi
  · cases hstep
  · obtain ⟨ffi, hffi, rfl⟩ := Option.map_eq_some_iff.mp hstep
    exact hone hffi
  · obtain ⟨object, _, hrest⟩ := Option.bind_eq_some_iff.mp hstep
    split_ifs at hrest
    obtain ⟨ok, _, rfl⟩ := Option.map_eq_some_iff.mp hrest
    rfl
  · obtain ⟨object, _, hrest⟩ := Option.bind_eq_some_iff.mp hstep
    obtain ⟨value, _, rfl⟩ := Option.map_eq_some_iff.mp hrest
    rfl

/-- The run of the exports inside a run of the host. -/
theorem Hosted.run_ffi {β α : Type*} {ops : HostOps β α} {s t : Hosted β}
    {acts : List (HostAct α)} (hrun : (Hosted.machine ops).run s acts = some t) :
    Ffi.machine.run s.ffi (acts.flatMap fun a => a.export?.toList) = some t.ffi := by
  induction acts generalizing s with
  | nil =>
      cases hrun
      rfl
  | cons a acts ih =>
      obtain ⟨next, hstep, hrest⟩ := ((Hosted.machine ops).run_cons_eq_some).mp hrun
      rw [List.flatMap_cons, Ffi.machine.run_append_of_run (Hosted.step_ffi hstep)]
      exact ih hrest

/-! ## The calls behind the objects -/

/-- A start that has not created a session: it is on its way, or has failed. -/
def Thread.early : Thread → Bool
  | .startCheck _ _ _ => true
  | .startCreate _ _ => true
  | .returned _ => true
  | _ => false

/-- A start that has created its session. -/
def Thread.late : Thread → Bool
  | .startNumber _ => true
  | .startRegister _ _ => true
  | .startTrack _ _ => true
  | .startDrain _ _ => true
  | .startReturn _ => true
  | .started _ => true
  | _ => false

def Thread.finished : Thread → Bool
  | .returned _ => true
  | .started _ => true
  | _ => false

theorem advance_early {bridge next : Bridge} {thread after : Thread}
    (hadvance : bridge.advance thread = some (next, after))
    (hearly : thread.early = true) :
    after.early = true ∨ ∃ generation, after = .startNumber bridge.sessions.length ∧
      next.sessions = bridge.sessions ++ [.create generation] := by
  cases thread with
  | startCheck kind validArguments generation =>
      simp only [Bridge.advance] at hadvance
      split_ifs at hadvance <;> cases hadvance <;> exact Or.inl rfl
  | startCreate kind generation =>
      simp only [Bridge.advance] at hadvance
      split_ifs at hadvance
      · cases hadvance
        exact Or.inr ⟨generation, rfl, rfl⟩
      · cases hadvance
        exact Or.inl rfl
  | returned status => cases hadvance
  | _ => cases hearly

theorem advance_late {bridge next : Bridge} {thread after : Thread}
    (hadvance : bridge.advance thread = some (next, after))
    (hlate : thread.late = true) : after.late = true ∧ ∀ n, after ≠ .startNumber n := by
  cases thread with
  | started id => cases hadvance
  | startNumber _ =>
      cases hadvance
      exact ⟨rfl, fun _ => Thread.noConfusion⟩
  | startRegister _ _ =>
      cases hadvance
      exact ⟨rfl, fun _ => Thread.noConfusion⟩
  | startTrack _ _ =>
      cases hadvance
      exact ⟨rfl, fun _ => Thread.noConfusion⟩
  | startDrain _ _ =>
      cases hadvance
      exact ⟨rfl, fun _ => Thread.noConfusion⟩
  | startReturn _ =>
      cases hadvance
      exact ⟨rfl, fun _ => Thread.noConfusion⟩
  | _ => cases hlate

theorem advance_finished {bridge : Bridge} {thread : Thread} (hfinished : thread.finished = true) :
    bridge.advance thread = none := by
  cases thread with
  | returned status => rfl
  | started id => rfl
  | _ => cases hfinished

/-- What a step leaves of the tokens the callbacks were invoked with. -/
theorem step_delivered {s t : State} {a : Act} (hstep : step s a = some t)
    (hquiet : ∀ n, a ≠ .invoke n) :
    Evolves (fun before after : FfiSession => after.delivered = before.delivered)
      (fun _ => True) s.bridge.sessions t.bridge.sessions := by
  have hrefl : ∀ entry : FfiSession, entry.delivered = entry.delivered := fun _ => rfl
  have hsession : ∀ (n : ℕ) (move : FfiSession → Option FfiSession),
      (∀ entry next, move entry = some next → next.delivered = entry.delivered) →
      s.stepSession n move = some t →
      Evolves (fun before after : FfiSession => after.delivered = before.delivered)
        (fun _ => True) s.bridge.sessions t.bridge.sessions := by
    intro n move hmove hmoved
    obtain ⟨bridge, hbridge, rfl⟩ := Option.map_eq_some_iff.mp hmoved
    obtain ⟨entry, hentry, hmap⟩ := Option.bind_eq_some_iff.mp hbridge
    obtain ⟨next, hnext, rfl⟩ := Option.map_eq_some_iff.mp hmap
    exact Evolves.set hrefl hentry (hmove entry next hnext)
  cases a with
  | call call =>
      obtain rfl := Option.some.inj hstep
      exact Evolves.refl hrefl _
  | advance i =>
      obtain ⟨thread, hthread, hmap⟩ := Option.bind_eq_some_iff.mp hstep
      obtain ⟨⟨bridge, after⟩, hadvance, rfl⟩ := Option.map_eq_some_iff.mp hmap
      cases advance_sessionEffect hadvance with
      | untouched hsessions _ =>
          refine ⟨(hsessions.imp fun _ _ huntouched => huntouched.delivered_eq).kept, ?_⟩
          exact fun _ _ _ _ => trivial
      | create kind generation => exact Evolves.append hrefl _ trivial
      | schedule session id => exact Evolves.modify hrefl fun _ _ => rfl
  | pump n act =>
      refine hsession n _ ?_ hstep
      intro entry next hmove
      obtain ⟨session, _, rfl⟩ := Option.map_eq_some_iff.mp hmove
      rfl
  | read n =>
      refine hsession n _ ?_ hstep
      intro entry next hmove
      unfold FfiSession.read at hmove
      split at hmove <;> cases hmove
      rfl
  | invoke n => exact absurd rfl (hquiet n)
  | endDrain n =>
      refine hsession n _ ?_ hstep
      intro entry next hmove
      unfold FfiSession.endDrain at hmove
      split at hmove <;> cases hmove
      rfl

/-- The one step that delivers: the callback of the session is invoked with the
token its drain holds. -/
theorem step_invoke {s t : State} {n : ℕ} (hstep : step s (.invoke n) = some t) :
    ∃ entry next token, s.bridge.sessions[n]? = some entry ∧ entry.drain = .holding token ∧
      Hosted.heldToken s n = some token ∧ next.delivered = entry.delivered ++ [token] ∧
      t.threads = s.threads ∧ t.bridge.sessions = s.bridge.sessions.set n next := by
  obtain ⟨bridge, hbridge, rfl⟩ := Option.map_eq_some_iff.mp hstep
  obtain ⟨entry, hentry, hmap⟩ := Option.bind_eq_some_iff.mp hbridge
  obtain ⟨next, hnext, rfl⟩ := Option.map_eq_some_iff.mp hmap
  unfold FfiSession.invoke at hnext
  split at hnext
  · next token hdrain =>
      cases hnext
      refine ⟨entry, _, token, hentry, hdrain, ?_, rfl, rfl, rfl⟩
      simp [Hosted.heldToken, hentry, hdrain, Drain.held]
  · cases hnext

/-! ## The rule -/

namespace Hosted

variable {β α : Type*}

/-- What the session of an object has delivered, once there is a session. -/
def view (ffi : State) (object : HostObject β) : Option (List InferenceToken) :=
  object.session.map fun n => (ffi.bridge.sessions[n]?).elim [] FfiSession.delivered

/-- A relation between an object, whether its call has returned, and what its session
has delivered, that every step of the host and of the exports keeps. -/
structure HostRule (ops : HostOps β α)
    (R : β → Bool → Option (List InferenceToken) → Prop) : Prop where
  initial : R ops.initial false none
  created : ∀ value, R value false none → R value false (some [])
  token : ∀ value returned delivered token fragments,
    delivered ++ [token] <+: InferenceOrchestrator.stream fragments →
    R value returned (some delivered) →
    R (ops.onToken token value) returned (some (delivered ++ [token]))
  started : ∀ value delivered, R value false (some delivered) →
    R (ops.onReturn true value) true (some delivered)
  failed : ∀ value, R value false none → R (ops.onReturn false value) true none
  act : ∀ value returned view act next, R value returned view →
    ops.act act value = some next → R next returned view

structure Linked (ffi : State) (object : HostObject β) : Prop where
  early : object.session = none →
    ∃ thread, ffi.threads[object.call]? = some thread ∧ thread.early = true
  late : ∀ n, object.session = some n →
    (∃ thread, ffi.threads[object.call]? = some thread ∧ thread.late = true) ∧
      n < ffi.bridge.sessions.length
  finished : object.returned = true →
    ∃ thread, ffi.threads[object.call]? = some thread ∧ thread.finished = true

structure Invariant (R : β → Bool → Option (List InferenceToken) → Prop)
    (s : Hosted β) : Prop where
  drains : DrainInvariant FfiSession.Sound s.ffi
  linked : ∀ object ∈ s.objects, Linked s.ffi object
  related : ∀ object ∈ s.objects, R object.value object.returned (view s.ffi object)

section Rule

variable {ops : HostOps β α} {R : β → Bool → Option (List InferenceToken) → Prop}
  {s t : Hosted β}

theorem Invariant.initial (R : β → Bool → Option (List InferenceToken) → Prop) :
    Invariant R Hosted.initial where
  drains := drainInvariant_initial _
  linked := by simp [Hosted.initial]
  related := by simp [Hosted.initial]

/-- The calls of other objects, and calls that are over, stay as they are. -/
theorem Linked.call {object : HostObject β} (hlinked : Linked s.ffi object)
    {thread : Thread} :
    Linked { s.ffi with threads := s.ffi.threads ++ [thread] } object := by
  have hkeep : ∀ {found : Thread}, s.ffi.threads[object.call]? = some found →
      (s.ffi.threads ++ [thread])[object.call]? = some found := by
    intro found hfound
    rw [List.getElem?_append_left (List.getElem?_eq_some_iff.mp hfound).1]
    exact hfound
  constructor
  · intro hnone
    obtain ⟨found, hfound, hearly⟩ := hlinked.early hnone
    exact ⟨found, hkeep hfound, hearly⟩
  · intro n hn
    obtain ⟨⟨found, hfound, hlate⟩, hlt⟩ := hlinked.late n hn
    exact ⟨⟨found, hkeep hfound, hlate⟩, hlt⟩
  · intro hreturned
    obtain ⟨found, hfound, hfinished⟩ := hlinked.finished hreturned
    exact ⟨found, hkeep hfound, hfinished⟩

/-- A step that leaves the calls alone and loses no session. -/
theorem Linked.same {before after : State} {object : HostObject β}
    (hlinked : Linked before object) (hthreads : after.threads = before.threads)
    (hlength : before.bridge.sessions.length ≤ after.bridge.sessions.length) :
    Linked after object := by
  constructor
  · rw [hthreads]
    exact hlinked.early
  · intro n hn
    rw [hthreads]
    obtain ⟨hlate, hlt⟩ := hlinked.late n hn
    exact ⟨hlate, lt_of_lt_of_le hlt hlength⟩
  · rw [hthreads]
    exact hlinked.finished

theorem view_of_evolves {before after : State} {object : HostObject β}
    (hevolves : Evolves (fun x y : FfiSession => y.delivered = x.delivered)
      (fun _ => True) before.bridge.sessions after.bridge.sessions)
    (hlinked : Linked before object) : view after object = view before object := by
  unfold view
  cases hsession : object.session with
  | none => rfl
  | some n =>
      obtain ⟨_, hlt⟩ := hlinked.late n hsession
      obtain ⟨entry, hentry⟩ : ∃ entry, before.bridge.sessions[n]? = some entry :=
        ⟨_, List.getElem?_eq_getElem hlt⟩
      obtain ⟨next, hnext, hdelivered⟩ := hevolves.kept n entry hentry
      simp [hentry, hnext, hdelivered]

theorem Evolves.length_le {R : FfiSession → FfiSession → Prop} {Fresh : FfiSession → Prop}
    {before after : List FfiSession} (hevolves : Evolves R Fresh before after) :
    before.length ≤ after.length := by
  by_contra hlt
  rw [not_le] at hlt
  obtain ⟨y, hy, _⟩ := hevolves.kept after.length _ (List.getElem?_eq_getElem hlt)
  simp at hy

theorem attend_other {before after : State} {i : ℕ} {object : HostObject β}
    (hother : object.call ≠ i) : attend ops before after (.advance i) object = object := by
  simp only [attend, hother, if_false]
  split <;> rfl

theorem map_attend_quiet {before after : State} {act : Act} (objects : List (HostObject β))
    (hadvance : ∀ i, act ≠ .advance i) (hinvoke : ∀ n, act ≠ .invoke n) :
    objects.map (attend ops before after act) = objects := by
  have hsame : ∀ object ∈ objects, attend ops before after act object = object := by
    intro object _
    cases act with
    | advance i => exact absurd rfl (hadvance i)
    | invoke n => exact absurd rfl (hinvoke n)
    | _ => rfl
  exact (List.map_congr_left hsame).trans (List.map_id' objects)

theorem attend_still {before after : State} {object : HostObject β} {thread : Thread}
    (hthread : after.threads[object.call]? = some thread)
    (hne : ∀ n, thread ≠ .startNumber n) :
    attend ops before after (.advance object.call) object = object := by
  simp only [attend, hthread]
  split
  · next n heq => exact absurd (Option.some.inj heq) (hne n)
  · rfl

theorem attend_created {before after : State} {object : HostObject β} {n : ℕ}
    (hthread : after.threads[object.call]? = some (.startNumber n)) :
    attend ops before after (.advance object.call) object =
      { object with session := some n } := by
  simp only [attend, hthread, if_true]

/-- A call that takes a step has not returned. -/
theorem Linked.unreturned {before : State} {object : HostObject β} {thread : Thread}
    {result : Bridge × Thread} (hlinked : Linked before object)
    (hthread : before.threads[object.call]? = some thread)
    (hadvance : before.bridge.advance thread = some result) : object.returned = false := by
  cases hreturned : object.returned with
  | false => rfl
  | true =>
      obtain ⟨found, hfound, hfinished⟩ := hlinked.finished hreturned
      rw [hthread] at hfound
      cases hfound
      rw [advance_finished hfinished] at hadvance
      cases hadvance

section

variable {ffi : State} {object : HostObject β} {after : Thread}

theorem Linked.of_early (hafter : ffi.threads[object.call]? = some after)
    (hearly : after.early = true) (hsession : object.session = none)
    (hunreturned : object.returned = false) : Linked ffi object := by
  refine ⟨fun _ => ⟨after, hafter, hearly⟩, fun n hn => ?_, fun hreturned => ?_⟩
  · rw [hsession] at hn
    cases hn
  · rw [hunreturned] at hreturned
    cases hreturned

theorem Linked.of_late {n : ℕ} (hafter : ffi.threads[object.call]? = some after)
    (hlate : after.late = true) (hsession : object.session = some n)
    (hlt : n < ffi.bridge.sessions.length) (hunreturned : object.returned = false) :
    Linked ffi object := by
  refine ⟨fun hnone => ?_, fun m hm => ?_, fun hreturned => ?_⟩
  · rw [hsession] at hnone
    cases hnone
  · rw [hsession] at hm
    cases hm
    exact ⟨⟨after, hafter, hlate⟩, hlt⟩
  · rw [hunreturned] at hreturned
    cases hreturned

end

/-- The object whose own call takes a step: the call creates the session of the
object, or stays on its side of that. -/
theorem Invariant.attend_self {i : ℕ} {ffi : State} {object : HostObject β}
    (hrule : HostRule ops R) (hinv : Invariant R s) (hmem : object ∈ s.objects)
    (hstep : s.ffi.advance i = some ffi) (hcall : object.call = i) :
    Linked ffi (attend ops s.ffi ffi (.advance i) object) ∧
      R (attend ops s.ffi ffi (.advance i) object).value
        (attend ops s.ffi ffi (.advance i) object).returned
        (view ffi (attend ops s.ffi ffi (.advance i) object)) := by
  subst hcall
  have hlinked := hinv.linked object hmem
  have hrelated := hinv.related object hmem
  have hdelivered := step_delivered (a := .advance object.call) hstep (by simp)
  have hview := view_of_evolves hdelivered hlinked
  have hlength := Evolves.length_le hdelivered
  obtain ⟨thread, hthread, hmap⟩ := Option.bind_eq_some_iff.mp hstep
  obtain ⟨⟨bridge, after⟩, hadvance, rfl⟩ := Option.map_eq_some_iff.mp hmap
  have hunreturned := hlinked.unreturned hthread hadvance
  have hafter : (s.ffi.threads.set object.call after)[object.call]? = some after :=
    List.getElem?_set_self (List.getElem?_eq_some_iff.mp hthread).1
  cases hsession : object.session with
  | none =>
      obtain ⟨found, hfound, hearly⟩ := hlinked.early hsession
      rw [hthread] at hfound
      cases hfound
      rcases advance_early hadvance hearly with hstill | ⟨generation, rfl, hsessions⟩
      · have hne : ∀ n, after ≠ .startNumber n := by
          rintro n rfl
          cases hstill
        rw [attend_still hafter hne, hview]
        exact ⟨.of_early hafter hstill hsession hunreturned, hrelated⟩
      · rw [attend_created hafter]
        refine ⟨.of_late hafter rfl rfl (by simp [hsessions]) hunreturned, ?_⟩
        have hnone : view s.ffi object = none := by simp [view, hsession]
        rw [hunreturned, hnone] at hrelated
        simp only [view, hsessions, hunreturned, Option.map_some,
          List.getElem?_concat_length, Option.elim_some]
        exact hrule.created object.value hrelated
  | some n =>
      obtain ⟨⟨found, hfound, hlate⟩, hlt⟩ := hlinked.late n hsession
      rw [hthread] at hfound
      cases hfound
      obtain ⟨hstill, hne⟩ := advance_late hadvance hlate
      rw [attend_still hafter hne, hview]
      exact ⟨.of_late hafter hstill hsession (hlt.trans_le hlength) hunreturned, hrelated⟩

theorem Invariant.advance {i : ℕ} {ffi : State} (hrule : HostRule ops R)
    (hinv : Invariant R s) (hstep : s.ffi.advance i = some ffi) :
    Invariant R ⟨ffi, s.objects.map (attend ops s.ffi ffi (.advance i))⟩ := by
  have hdelivered := step_delivered (a := .advance i) hstep (by simp)
  have hlength := Evolves.length_le hdelivered
  have hboth : ∀ object ∈ s.objects,
      Linked ffi (attend ops s.ffi ffi (.advance i) object) ∧
        R (attend ops s.ffi ffi (.advance i) object).value
          (attend ops s.ffi ffi (.advance i) object).returned
          (view ffi (attend ops s.ffi ffi (.advance i) object)) := by
    intro object hmem
    by_cases hcall : object.call = i
    · exact hinv.attend_self hrule hmem hstep hcall
    · have hlinked := hinv.linked object hmem
      rw [attend_other hcall, view_of_evolves hdelivered hlinked]
      refine ⟨?_, hinv.related object hmem⟩
      obtain ⟨thread, hthread, hmap⟩ := Option.bind_eq_some_iff.mp hstep
      obtain ⟨⟨bridge, after⟩, hadvance, rfl⟩ := Option.map_eq_some_iff.mp hmap
      have hkeep : (s.ffi.threads.set i after)[object.call]? =
          s.ffi.threads[object.call]? := List.getElem?_set_ne (Ne.symm hcall)
      constructor
      · rw [hkeep]
        exact hlinked.early
      · intro n hn
        rw [hkeep]
        obtain ⟨hlate, hlt⟩ := hlinked.late n hn
        exact ⟨hlate, lt_of_lt_of_le hlt hlength⟩
      · rw [hkeep]
        exact hlinked.finished
  constructor
  · exact hinv.drains.step_sound (a := .advance i) hstep
  · intro object hobject
    obtain ⟨before, hmem, rfl⟩ := List.mem_map.mp hobject
    exact (hboth before hmem).1
  · intro object hobject
    obtain ⟨before, hmem, rfl⟩ := List.mem_map.mp hobject
    exact (hboth before hmem).2

theorem Invariant.invoke {n : ℕ} {ffi : State} (hrule : HostRule ops R)
    (hinv : Invariant R s) (hstep : Ffi.step s.ffi (.invoke n) = some ffi) :
    Invariant R ⟨ffi, s.objects.map (attend ops s.ffi ffi (.invoke n))⟩ := by
  have hdrains := hinv.drains.step_sound (a := .invoke n) hstep
  obtain ⟨entry, next, token, hentry, hdrain, hheld, hnext, hthreads, hsessions⟩ :=
    step_invoke hstep
  have hlt := (List.getElem?_eq_some_iff.mp hentry).1
  have hlength : s.ffi.bridge.sessions.length ≤ ffi.bridge.sessions.length := by
    simp [hsessions]
  constructor
  · exact hdrains
  · intro object hobject
    obtain ⟨before, hmem, rfl⟩ := List.mem_map.mp hobject
    have hlinked := (hinv.linked before hmem).same hthreads hlength
    simp only [attend]
    split_ifs
    · exact ⟨hlinked.early, hlinked.late, hlinked.finished⟩
    · exact hlinked
  · intro object hobject
    obtain ⟨before, hmem, rfl⟩ := List.mem_map.mp hobject
    have hrelated := hinv.related before hmem
    simp only [attend]
    split_ifs with hsession
    · -- the object of the session: its tokens are the beginning of an answer
      obtain ⟨generation, hdelivers⟩ :=
        (hinv.drains.entries entry (List.mem_of_getElem? hentry)).delivers
      have hstream : entry.delivered ++ [token] <+:
          InferenceOrchestrator.stream generation.fragments := by
        have htaken : entry.taken = entry.delivered ++ [token] := by
          simp [FfiSession.taken, hdrain, Drain.held]
        rw [← htaken]
        exact ((List.prefix_append _ _).trans hdelivers.isPrefix).trans
          (InferenceOrchestrator.run_isPrefix_stream generation)
      have hbefore : view s.ffi before = some entry.delivered := by
        simp [view, hsession, hentry]
      have hafter : view ffi before = some (entry.delivered ++ [token]) := by
        simp [view, hsession, hsessions, hlt, hnext]
      rw [hbefore] at hrelated
      rw [hheld]
      change R _ _ (view ffi before)
      rw [hafter]
      exact hrule.token before.value before.returned entry.delivered token
        generation.fragments hstream hrelated
    · have hsame : view ffi before = view s.ffi before := by
        unfold view
        cases hother : before.session with
        | none => rfl
        | some m =>
            have hne : n ≠ m := by
              rintro rfl
              exact hsession hother
            simp [hsessions, List.getElem?_set_ne hne]
      rw [hsame]
      exact hrelated

/-- Steps of the exports that neither move a call nor deliver a token. -/
theorem Invariant.quiet {ffi : State} {act : Act} (hinv : Invariant R s)
    (hstep : Ffi.step s.ffi act = some ffi) (hthreads : ffi.threads = s.ffi.threads)
    (hquiet : ∀ n, act ≠ .invoke n) : Invariant R ⟨ffi, s.objects⟩ := by
  have hdelivered := step_delivered hstep hquiet
  constructor
  · exact hinv.drains.step_sound hstep
  · intro object hmem
    exact (hinv.linked object hmem).same hthreads (Evolves.length_le hdelivered)
  · intro object hmem
    rw [view_of_evolves hdelivered (hinv.linked object hmem)]
    exact hinv.related object hmem

theorem Invariant.call {ffi : State} {call : Call} (hinv : Invariant R s)
    (hstep : Ffi.step s.ffi (.call call) = some ffi) : Invariant R ⟨ffi, s.objects⟩ := by
  have hdelivered := step_delivered hstep (by simp)
  have hdrains := hinv.drains.step_sound (a := .call call) hstep
  constructor
  · exact hdrains
  · intro object hmem
    obtain rfl := Option.some.inj hstep
    exact (hinv.linked object hmem).call
  · intro object hmem
    rw [view_of_evolves hdelivered (hinv.linked object hmem)]
    exact hinv.related object hmem

theorem Invariant.setObject {k : ℕ} {object next : HostObject β} (hinv : Invariant R s)
    (hobject : s.objects[k]? = some object) (hcall : next.call = object.call)
    (hsession : next.session = object.session)
    (hfinished : next.returned = true → ∃ thread,
      s.ffi.threads[object.call]? = some thread ∧ thread.finished = true)
    (hrelated : R next.value next.returned (view s.ffi object)) :
    Invariant R { s with objects := s.objects.set k next } := by
  have hlinked := hinv.linked object (List.mem_of_getElem? hobject)
  constructor
  · exact hinv.drains
  · intro other hmem
    rcases List.mem_or_eq_of_mem_set hmem with hold | rfl
    · exact hinv.linked other hold
    · refine ⟨?_, ?_, ?_⟩
      · rw [hsession, hcall]
        exact hlinked.early
      · rw [hsession, hcall]
        exact hlinked.late
      · rw [hcall]
        exact hfinished
  · intro other hmem
    rcases List.mem_or_eq_of_mem_set hmem with hold | rfl
    · exact hinv.related other hold
    · have hsame : view s.ffi other = view s.ffi object := by simp [view, hsession]
      rw [hsame]
      exact hrelated

theorem Invariant.finish {k : ℕ} (hrule : HostRule ops R) (hinv : Invariant R s)
    (hstep : step ops s (.finish k) = some t) : Invariant R t := by
  obtain ⟨object, hobject, hrest⟩ := Option.bind_eq_some_iff.mp hstep
  have hmem := List.mem_of_getElem? hobject
  have hlinked := hinv.linked object hmem
  have hrelated := hinv.related object hmem
  split_ifs at hrest with hreturned
  rw [Bool.not_eq_true] at hreturned
  obtain ⟨ok, hresult, rfl⟩ := Option.map_eq_some_iff.mp hrest
  rw [hreturned] at hrelated
  unfold result at hresult
  split at hresult
  · next id hthread =>
      cases hresult
      refine hinv.setObject hobject rfl rfl (fun _ => ⟨_, hthread, rfl⟩) ?_
      cases hsession : object.session with
      | none =>
          obtain ⟨found, hfound, hearly⟩ := hlinked.early hsession
          rw [hthread] at hfound
          cases hfound
          cases hearly
      | some n =>
          simp only [view, hsession, Option.map_some] at hrelated ⊢
          exact hrule.started _ _ hrelated
  · next status hthread =>
      cases hresult
      refine hinv.setObject hobject rfl rfl (fun _ => ⟨_, hthread, rfl⟩) ?_
      cases hsession : object.session with
      | none =>
          simp only [view, hsession, Option.map_none] at hrelated ⊢
          exact hrule.failed _ hrelated
      | some n =>
          obtain ⟨⟨found, hfound, hlate⟩, _⟩ := hlinked.late n hsession
          rw [hthread] at hfound
          cases hfound
          cases hlate
  · cases hresult

theorem Invariant.step {a : HostAct α} (hrule : HostRule ops R) (hinv : Invariant R s)
    (hstep : Hosted.step ops s a = some t) : Invariant R t := by
  cases a with
  | start kind validArguments generation =>
      simp only [Hosted.step] at hstep
      obtain ⟨ffi, hffi, rfl⟩ := Option.map_eq_some_iff.mp hstep
      have hcalled := hinv.call hffi
      obtain rfl := Option.some.inj hffi
      constructor
      · exact hcalled.drains
      · intro object hmem
        rcases List.mem_append.mp hmem with hold | hnew
        · exact hcalled.linked object hold
        · rw [List.mem_singleton.mp hnew]
          refine ⟨fun _ => ⟨.startCheck kind validArguments generation, ?_, rfl⟩, ?_, ?_⟩
          · simp [Call.entry]
          · intro n hn
            cases hn
          · intro hreturned
            cases hreturned
      · intro object hmem
        rcases List.mem_append.mp hmem with hold | hnew
        · exact hcalled.related object hold
        · rw [List.mem_singleton.mp hnew]
          exact hrule.initial
  | ffi act =>
      cases act with
      | call call =>
          cases call with
          | start kind validArguments generation => cases hstep
          | _ =>
              simp only [Hosted.step] at hstep
              obtain ⟨ffi, hffi, rfl⟩ := Option.map_eq_some_iff.mp hstep
              rw [map_attend_quiet s.objects (by simp) (by simp)]
              exact hinv.call hffi
      | advance i =>
          obtain ⟨ffi, hffi, rfl⟩ := Option.map_eq_some_iff.mp hstep
          exact hinv.advance hrule hffi
      | invoke n =>
          obtain ⟨ffi, hffi, rfl⟩ := Option.map_eq_some_iff.mp hstep
          exact hinv.invoke hrule hffi
      | _ =>
          obtain ⟨ffi, hffi, rfl⟩ := Option.map_eq_some_iff.mp hstep
          have hthreads : ffi.threads = s.ffi.threads := by
            obtain ⟨bridge, _, rfl⟩ := Option.map_eq_some_iff.mp hffi
            rfl
          rw [map_attend_quiet s.objects (by simp) (by simp)]
          exact hinv.quiet hffi hthreads (by simp)
  | finish k => exact hinv.finish hrule hstep
  | host k act =>
      obtain ⟨object, hobject, hrest⟩ := Option.bind_eq_some_iff.mp hstep
      obtain ⟨value, hvalue, rfl⟩ := Option.map_eq_some_iff.mp hrest
      have hmem := List.mem_of_getElem? hobject
      exact hinv.setObject hobject rfl rfl (hinv.linked object hmem).finished
        (hrule.act _ _ _ act value (hinv.related object hmem) hvalue)

/-- Along every run the relation holds of every object. -/
theorem invariant_of_run {acts : List (HostAct α)} (hrule : HostRule ops R)
    (hrun : (machine ops).run Hosted.initial acts = some s) : Invariant R s :=
  (machine ops).run_invariant_of_step (fun _ _ _ hinv hstep => hinv.step hrule hstep)
    (Invariant.initial R) hrun

end Rule

end Hosted

end Ffi

end NativeInterop
