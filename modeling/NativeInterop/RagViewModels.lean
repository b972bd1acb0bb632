import NativeInterop.Machine
import Mathlib.Tactic

/-!
# The RAG screens

Every `ask` of a `RagViewModel` retrieves sources and then streams an answer; both
phases write the fields of the screen when they resume, and neither looks whether a later
`ask` has been issued.  A pane is an answer with its running flag and the tasks that have
been asked to write it: the engine's panes append deltas, the Apple pane of the iOS screen
replaces one snapshot by the next.
-/

namespace NativeInterop

/-! ## Panes -/

inductive PanePhase where
  | waiting
  | streaming
  | done
  deriving DecidableEq, Repr

/-- The stream of one `ask`, and how many of its items have been written. -/
structure PaneTask where
  items : List String
  position : ℕ := 0
  phase : PanePhase := .waiting
  deriving DecidableEq, Repr

structure Pane where
  answer : String := ""
  running : Bool := false
  tasks : List PaneTask := []
  deriving DecidableEq, Repr

namespace Pane

/-- A new `ask` clears the answer. -/
def ask (pane : Pane) (running : Bool) (items : List String) : Pane where
  answer := ""
  running := running
  tasks := pane.tasks ++ [{ items := items }]

def setPhase (pane : Pane) (i : ℕ) (phase : PanePhase) : Pane :=
  { pane with tasks := pane.tasks.modify i fun task => { task with phase := phase } }

def inPhase (pane : Pane) (i : ℕ) (phase : PanePhase) : Bool :=
  pane.tasks[i]?.any fun task => task.phase = phase

def item? (pane : Pane) (i : ℕ) : Option String :=
  pane.tasks[i]?.bind fun task => task.items[task.position]?

/-- The next item of a stream, written with `put`. -/
def deliver (put : String → String → String) (pane : Pane) (i : ℕ) (item : String) : Pane :=
  { pane with
    answer := put pane.answer item
    tasks := pane.tasks.modify i fun task => { task with position := task.position + 1 } }

/-- The epilogue of a task. -/
def finish (pane : Pane) (i : ℕ) : Pane :=
  { pane.setPhase i .done with running := false }

def latest (pane : Pane) : Option PaneTask := pane.tasks.getLast?

def latestBusy (busy : PanePhase → Bool) (pane : Pane) : Bool :=
  pane.latest.any fun task => busy task.phase

/-- What is displayed is a prefix of the stream of the latest `ask`. -/
def ShowsOwn (shown : List String → String) (pane : Pane) : Prop :=
  ∀ task, pane.latest = some task → ∃ n, pane.answer = shown (task.items.take n)

/-- The invariant behind it: as many items as have been written. -/
def Own (shown : List String → String) (pane : Pane) : Prop :=
  ∀ task, pane.latest = some task → pane.answer = shown (task.items.take task.position)

section Own

variable {put : String → String → String} {shown : List String → String} {pane : Pane} {i : ℕ}

theorem Own.showsOwn (hown : pane.Own shown) : pane.ShowsOwn shown :=
  fun task hlatest => ⟨task.position, hown task hlatest⟩

theorem own_ask (hnil : shown [] = "") (pane : Pane) (running : Bool) (items : List String) :
    (pane.ask running items).Own shown := by
  intro task hlatest
  simp only [latest, ask, List.getLast?_concat, Option.some.injEq] at hlatest
  subst hlatest
  simpa [ask] using hnil.symm

/-- The latest task after one task has been changed. -/
theorem latest_modify {tasks : List PaneTask} {update : PaneTask → PaneTask} {task : PaneTask}
    (hlatest : (tasks.modify i update).getLast? = some task) :
    ∃ old, tasks.getLast? = some old ∧
      ((i + 1 = tasks.length ∧ task = update old) ∨ (i + 1 ≠ tasks.length ∧ task = old)) := by
  rw [List.getLast?_eq_getElem?, List.length_modify, List.getElem?_modify, Option.map_eq_map,
    Option.map_eq_some_iff] at hlatest
  obtain ⟨old, hold, rfl⟩ := hlatest
  have hlt := (List.getElem?_eq_some_iff.mp hold).1
  refine ⟨old, by rw [List.getLast?_eq_getElem?, hold], ?_⟩
  by_cases hi : i = tasks.length - 1
  · exact .inl ⟨by omega, by simp [hi]⟩
  · exact .inr ⟨by omega, by simp [hi]⟩

theorem Own.setPhase (hown : pane.Own shown) (i : ℕ) (phase : PanePhase) :
    (pane.setPhase i phase).Own shown := by
  intro task hlatest
  obtain ⟨old, hold, ⟨-, rfl⟩ | ⟨-, rfl⟩⟩ := latest_modify hlatest
  · exact hown old hold
  · exact hown task hold

theorem Own.setRunning (hown : pane.Own shown) (running : Bool) :
    Own shown { pane with running := running } :=
  hown

theorem Own.finish (hown : pane.Own shown) (i : ℕ) : (pane.finish i).Own shown :=
  (hown.setPhase i .done).setRunning false

theorem Own.deliver (hput : ∀ items item, shown (items ++ [item]) = put (shown items) item)
    (hown : pane.Own shown) {item : String} (hitem : pane.item? i = some item)
    (hharmless : i + 1 = pane.tasks.length ∨ put pane.answer item = pane.answer) :
    (pane.deliver put i item).Own shown := by
  intro task hlatest
  obtain ⟨old, hold, ⟨hi, rfl⟩ | ⟨hi, rfl⟩⟩ := latest_modify hlatest
  · have hget : pane.tasks[i]? = some old := by
      rw [List.getLast?_eq_getElem?, ← hi, Nat.add_sub_cancel] at hold
      exact hold
    rw [item?, hget, Option.bind_some] at hitem
    have htext := hown old hold
    simp only [Pane.deliver]
    rw [htext, ← hput, List.take_add_one, hitem, Option.toList_some]
  · rcases hharmless with hlatest | hsame
    · exact absurd hlatest hi
    · simp only [Pane.deliver, hsame]
      exact hown task hold

end Own

/-- An `ask` that is not the latest leaves a raised flag alone while the latest is busy. -/
def KeepsFlag (busy : PanePhase → Bool) (pane next : Pane) (i : ℕ) : Prop :=
  i + 1 ≠ pane.tasks.length → pane.latestBusy busy = true → pane.running = true →
    next.running = true

theorem keepsFlag_of_running {busy : PanePhase → Bool} {pane next : Pane} (i : ℕ)
    (hrunning : pane.running = true → next.running = true) : KeepsFlag busy pane next i :=
  fun _ _ hraised => hrunning hraised

theorem keepsFlag_finish {busy : PanePhase → Bool} {pane : Pane} {i : ℕ}
    (hharmless : i + 1 = pane.tasks.length ∨ pane.running = false ∨
      pane.latestBusy busy = false) :
    KeepsFlag busy pane (pane.finish i) i := by
  intro hearlier hbusy hrunning
  rcases hharmless with hlatest | hlowered | hidle
  · exact absurd hlatest hearlier
  · rw [hlowered] at hrunning
    cases hrunning
  · rw [hidle] at hbusy
    cases hbusy

end Pane

/-- The text of a pane that appends deltas. -/
def appended (deltas : List String) : String := String.join deltas

/-- The text of a pane that replaces one snapshot by the next. -/
def replaced (snapshots : List String) : String := snapshots.getLast?.getD ""

theorem appended_snoc (deltas : List String) (delta : String) :
    appended (deltas ++ [delta]) = appended deltas ++ delta := by
  simp [appended]

theorem replaced_snoc (snapshots : List String) (whole : String) :
    replaced (snapshots ++ [whole]) = whole := by
  simp [replaced]

namespace RagViewModel

variable {Source : Type}

/-- What an `ask` will find and what will be streamed for it; a retrieval may fail and a
stream may end at any item. -/
structure Request (Source : Type) where
  found : List Source
  deltas : List String
  snapshots : List String
  deriving DecidableEq, Repr

/-- The displayed sources are none, or those of the latest `ask`. -/
def OwnSources (found : List (List Source)) (sources : List Source) : Prop :=
  ∀ own, found.getLast? = some own → sources = [] ∨ sources = own

theorem ownSources_retrieved {found : List (List Source)} {sources retrieved : List Source}
    {i : ℕ} (hown : OwnSources found sources) (hretrieved : found[i]? = some retrieved)
    (hharmless : i + 1 = found.length ∨ retrieved = sources) : OwnSources found retrieved := by
  rcases hharmless with hlatest | rfl
  · intro own hlast
    rw [List.getLast?_eq_getElem?, ← hlatest, Nat.add_sub_cancel, hretrieved] at hlast
    exact .inr (Option.some.inj hlast)
  · exact hown

/-! ## iOS -/

namespace Ios

structure State (Source : Type) where
  sources : List Source := []
  engine : Pane := {}
  apple : Pane := {}
  appleAvailable : Bool := true
  found : List (List Source) := []
  deriving DecidableEq, Repr

/-- An `ask` without a request is one whose query `QueryInput.sanitize` rejects. -/
inductive Action (Source : Type) where
  | ask (request : Option (Request Source))
  | cancel
  | retrieved (i : ℕ)
  | retrievalFailed (i : ℕ)
  | delta (i : ℕ)
  | engineEnded (i : ℕ)
  | snapshot (i : ℕ)
  | appleEnded (i : ℕ) (failed : Bool)
  deriving DecidableEq, Repr

def Action.ask? : Action Source → Option ℕ
  | .ask _ => none
  | .cancel => none
  | .retrieved i => some i
  | .retrievalFailed i => some i
  | .delta i => some i
  | .engineEnded i => some i
  | .snapshot i => some i
  | .appleEnded i _ => some i

/-- The sources are left as they were. -/
def ask (s : State Source) (request : Request Source) : State Source :=
  { s with
    engine := s.engine.ask false request.deltas
    apple := s.apple.ask false request.snapshots
    found := s.found ++ [request.found] }

def cancel (s : State Source) : State Source :=
  { s with
    engine := { s.engine with running := false }
    apple := { s.apple with running := false } }

def startPane (pane : Pane) (i : ℕ) : Pane :=
  { pane.setPhase i .streaming with running := true }

def retrieved (s : State Source) (i : ℕ) (sources : List Source) : State Source :=
  { s with
    sources := sources
    engine := startPane s.engine i
    apple := if s.appleAvailable then startPane s.apple i else s.apple.setPhase i .done }

def retrievalFailed (s : State Source) (i : ℕ) : State Source :=
  { s with engine := s.engine.setPhase i .done, apple := s.apple.setPhase i .done }

def step (s : State Source) : Action Source → Option (State Source)
  | .ask none => some s
  | .ask (some request) => some (ask s request)
  | .cancel => some (cancel s)
  | .retrieved i => do
      let sources ← s.found[i]?
      if s.engine.inPhase i .waiting then some (retrieved s i sources) else none
  | .retrievalFailed i =>
      if s.engine.inPhase i .waiting then some (retrievalFailed s i) else none
  | .delta i => do
      let item ← s.engine.item? i
      if s.engine.inPhase i .streaming then
        some { s with engine := s.engine.deliver (· ++ ·) i item }
      else none
  | .engineEnded i =>
      if s.engine.inPhase i .streaming then some { s with engine := s.engine.finish i } else none
  | .snapshot i => do
      let item ← s.apple.item? i
      if s.apple.inPhase i .streaming then
        some { s with apple := s.apple.deliver (fun _ whole => whole) i item }
      else none
  | .appleEnded i failed =>
      if s.apple.inPhase i .streaming then
        some { s with
          apple := s.apple.finish i
          appleAvailable := s.appleAvailable && !failed }
      else none

def machine : Machine (State Source) (Action Source) where
  step := step

structure ShowsLatest (s : State Source) : Prop where
  engine : s.engine.ShowsOwn appended
  apple : s.apple.ShowsOwn replaced
  sources : OwnSources s.found s.sources

def streams (phase : PanePhase) : Bool := phase = .streaming

/-- No flag is lowered by an earlier `ask` while the latest streams. -/
def FlagsKept (s : State Source) (action : Action Source) : Prop :=
  ∀ i next, action.ask? = some i → machine.step s action = some next →
    Pane.KeepsFlag streams s.engine next.engine i ∧ Pane.KeepsFlag streams s.apple next.apple i

/-- An `ask` finds no other sources displayed, and an earlier `ask` finds nothing to
write: no other sources, no text, no raised flag to lower. -/
def harmless [DecidableEq Source] (s : State Source) : Action Source → Bool
  | .ask (some request) => s.sources = [] ∨ s.sources = request.found
  | .retrieved i => i + 1 = s.found.length ∨ s.found[i]? = some s.sources
  | .delta i => i + 1 = s.engine.tasks.length ∨ s.engine.item? i = some ""
  | .engineEnded i => i + 1 = s.engine.tasks.length ∨
      s.engine.running = false ∨ s.engine.latestBusy streams = false
  | .snapshot i => i + 1 = s.apple.tasks.length ∨ s.apple.item? i = some s.apple.answer
  | .appleEnded i _ => i + 1 = s.apple.tasks.length ∨
      s.apple.running = false ∨ s.apple.latestBusy streams = false
  | _ => true

structure Inv (s : State Source) : Prop where
  engine : s.engine.Own appended
  apple : s.apple.Own replaced
  sources : OwnSources s.found s.sources

theorem inv_initial (appleAvailable : Bool) :
    Inv ({ appleAvailable := appleAvailable } : State Source) := by
  constructor <;> simp [Pane.Own, Pane.latest, OwnSources]

/-- Everything a step can do. -/
inductive Moves (s : State Source) : Action Source → State Source → Prop
  | rejected : Moves s (.ask none) s
  | ask (request : Request Source) : Moves s (.ask (some request)) (ask s request)
  | cancel : Moves s .cancel (cancel s)
  | retrieved {i : ℕ} {sources : List Source} (hfound : s.found[i]? = some sources)
      (hphase : s.engine.inPhase i .waiting = true) :
      Moves s (.retrieved i) (retrieved s i sources)
  | retrievalFailed {i : ℕ} (hphase : s.engine.inPhase i .waiting = true) :
      Moves s (.retrievalFailed i) (retrievalFailed s i)
  | delta {i : ℕ} {item : String} (hitem : s.engine.item? i = some item)
      (hphase : s.engine.inPhase i .streaming = true) :
      Moves s (.delta i) { s with engine := s.engine.deliver (· ++ ·) i item }
  | engineEnded {i : ℕ} (hphase : s.engine.inPhase i .streaming = true) :
      Moves s (.engineEnded i) { s with engine := s.engine.finish i }
  | snapshot {i : ℕ} {item : String} (hitem : s.apple.item? i = some item)
      (hphase : s.apple.inPhase i .streaming = true) :
      Moves s (.snapshot i) { s with apple := s.apple.deliver (fun _ whole => whole) i item }
  | appleEnded {i : ℕ} (failed : Bool) (hphase : s.apple.inPhase i .streaming = true) :
      Moves s (.appleEnded i failed)
        { s with
          apple := s.apple.finish i
          appleAvailable := s.appleAvailable && !failed }

theorem moves_of_step {s next : State Source} {action : Action Source}
    (hstep : machine.step s action = some next) : Moves s action next := by
  cases action with
  | ask request =>
      cases request with
      | none =>
          cases hstep
          exact .rejected
      | some request =>
          cases hstep
          exact .ask request
  | cancel =>
      cases hstep
      exact .cancel
  | retrieved i =>
      simp only [machine, step, Option.bind_eq_bind, Option.bind_eq_some_iff] at hstep
      obtain ⟨sources, hfound, hstep⟩ := hstep
      split_ifs at hstep with hphase
      cases hstep
      exact .retrieved hfound hphase
  | retrievalFailed i =>
      simp only [machine, step] at hstep
      split_ifs at hstep with hphase
      cases hstep
      exact .retrievalFailed hphase
  | delta i =>
      simp only [machine, step, Option.bind_eq_bind, Option.bind_eq_some_iff] at hstep
      obtain ⟨item, hitem, hstep⟩ := hstep
      split_ifs at hstep with hphase
      cases hstep
      exact .delta hitem hphase
  | engineEnded i =>
      simp only [machine, step] at hstep
      split_ifs at hstep with hphase
      cases hstep
      exact .engineEnded hphase
  | snapshot i =>
      simp only [machine, step, Option.bind_eq_bind, Option.bind_eq_some_iff] at hstep
      obtain ⟨item, hitem, hstep⟩ := hstep
      split_ifs at hstep with hphase
      cases hstep
      exact .snapshot hitem hphase
  | appleEnded i failed =>
      simp only [machine, step] at hstep
      split_ifs at hstep with hphase
      cases hstep
      exact .appleEnded failed hphase

section Steps

variable [DecidableEq Source] {s next : State Source} {action : Action Source}

theorem inv_step (hinv : Inv s) (hharmless : harmless s action = true)
    (hstep : machine.step s action = some next) : Inv next := by
  cases moves_of_step hstep with
  | rejected => exact hinv
  | ask request =>
      refine ⟨Pane.own_ask rfl _ _ _, Pane.own_ask rfl _ _ _, ?_⟩
      intro own hlast
      simp only [ask, List.getLast?_concat, Option.some.injEq] at hlast
      subst hlast
      exact of_decide_eq_true hharmless
  | cancel => exact ⟨hinv.engine.setRunning false, hinv.apple.setRunning false, hinv.sources⟩
  | @retrieved i sources hfound =>
      have hsources : i + 1 = s.found.length ∨ sources = s.sources := by
        simpa [harmless, hfound] using hharmless
      refine ⟨(hinv.engine.setPhase i .streaming).setRunning true, ?_,
        ownSources_retrieved hinv.sources hfound hsources⟩
      simp only [retrieved]
      split_ifs
      · exact (hinv.apple.setPhase i .streaming).setRunning true
      · exact hinv.apple.setPhase i .done
  | @retrievalFailed i =>
      exact ⟨hinv.engine.setPhase i .done, hinv.apple.setPhase i .done, hinv.sources⟩
  | @delta i item hitem =>
      refine ⟨hinv.engine.deliver appended_snoc hitem ?_, hinv.apple, hinv.sources⟩
      have hempty : i + 1 = s.engine.tasks.length ∨ item = "" := by
        simpa [harmless, hitem] using hharmless
      exact hempty.imp_right fun hitem => by rw [hitem, String.append_empty]
  | @engineEnded i => exact ⟨hinv.engine.finish i, hinv.apple, hinv.sources⟩
  | snapshot hitem =>
      refine ⟨hinv.engine, hinv.apple.deliver replaced_snoc hitem ?_, hinv.sources⟩
      simpa [harmless, hitem] using hharmless
  | @appleEnded i => exact ⟨hinv.engine, hinv.apple.finish i, hinv.sources⟩

theorem flagsKept_of_harmless (hharmless : harmless s action = true) : FlagsKept s action := by
  intro i next hask hstep
  have hsame : ∀ pane : Pane, Pane.KeepsFlag streams pane pane i :=
    fun _ => Pane.keepsFlag_of_running i id
  cases moves_of_step hstep with
  | rejected => cases hask
  | ask request => cases hask
  | cancel => cases hask
  | retrieved =>
      refine ⟨Pane.keepsFlag_of_running i fun _ => rfl, Pane.keepsFlag_of_running i ?_⟩
      intro hrunning
      simp only [retrieved]
      split_ifs
      · rfl
      · exact hrunning
  | retrievalFailed => exact ⟨Pane.keepsFlag_of_running i id, Pane.keepsFlag_of_running i id⟩
  | delta => exact ⟨Pane.keepsFlag_of_running i id, hsame _⟩
  | engineEnded =>
      cases hask
      exact ⟨Pane.keepsFlag_finish (by simpa [harmless] using hharmless), hsame _⟩
  | snapshot => exact ⟨hsame _, Pane.keepsFlag_of_running i id⟩
  | appleEnded =>
      cases hask
      exact ⟨hsame _, Pane.keepsFlag_finish (by simpa [harmless] using hharmless)⟩

theorem showsLatest_of_harmless {t : State Source} {actions : List (Action Source)}
    {appleAvailable : Bool}
    (hrun : machine.run { appleAvailable := appleAvailable } actions = some t)
    (hharmless : machine.RunMeets (fun s action => harmless s action = true)
      { appleAvailable := appleAvailable } actions) :
    ShowsLatest t ∧ machine.RunMeets FlagsKept { appleAvailable := appleAvailable } actions := by
  have hpreserve : ∀ (s : State Source) (action : Action Source) (next : State Source), Inv s →
      harmless s action = true → machine.step s action = some next → Inv next :=
    fun _ _ _ hinv hharmless hstep => inv_step hinv hharmless hstep
  have hinit : Inv ({ appleAvailable := appleAvailable } : State Source) := inv_initial _
  constructor
  · have hinv := machine.run_invariant hpreserve hinit hharmless hrun
    exact ⟨hinv.engine.showsOwn, hinv.apple.showsOwn, hinv.sources⟩
  · exact machine.runMeets_imp hpreserve (fun _ _ _ hharmless => flagsKept_of_harmless hharmless)
      hinit hharmless

end Steps

end Ios

/-! ## Android -/

namespace Android

structure State (Source : Type) where
  sources : List Source := []
  pane : Pane := {}
  found : List (List Source) := []
  deriving DecidableEq, Repr

inductive Action (Source : Type) where
  | ask (request : Option (Request Source))
  | retrieved (i : ℕ)
  | retrievalFailed (i : ℕ)
  | fragment (i : ℕ)
  | ended (i : ℕ)
  deriving DecidableEq, Repr

def Action.ask? : Action Source → Option ℕ
  | .ask _ => none
  | .retrieved i => some i
  | .retrievalFailed i => some i
  | .fragment i => some i
  | .ended i => some i

/-- `streaming` is raised from here on; the jobs of earlier asks go on. -/
def ask (s : State Source) (request : Request Source) : State Source where
  sources := []
  pane := s.pane.ask true request.deltas
  found := s.found ++ [request.found]

def step (s : State Source) : Action Source → Option (State Source)
  | .ask none => some s
  | .ask (some request) => some (ask s request)
  | .retrieved i => do
      let sources ← s.found[i]?
      if s.pane.inPhase i .waiting then
        some { s with sources := sources, pane := s.pane.setPhase i .streaming }
      else none
  | .retrievalFailed i =>
      if s.pane.inPhase i .waiting then some { s with pane := s.pane.finish i } else none
  | .fragment i => do
      let item ← s.pane.item? i
      if s.pane.inPhase i .streaming then
        some { s with pane := s.pane.deliver (· ++ ·) i item }
      else none
  | .ended i =>
      if s.pane.inPhase i .streaming then some { s with pane := s.pane.finish i } else none

def machine : Machine (State Source) (Action Source) where
  step := step

structure ShowsLatest (s : State Source) : Prop where
  pane : s.pane.ShowsOwn appended
  sources : OwnSources s.found s.sources

/-- `streaming` stands for the retrieval too. -/
def unfinished (phase : PanePhase) : Bool := phase ≠ .done

def FlagKept (s : State Source) (action : Action Source) : Prop :=
  ∀ i next, action.ask? = some i → machine.step s action = some next →
    Pane.KeepsFlag unfinished s.pane next.pane i

/-- An earlier `ask` finds nothing to write. -/
def harmless [DecidableEq Source] (s : State Source) : Action Source → Bool
  | .retrieved i => i + 1 = s.found.length ∨ s.found[i]? = some s.sources
  | .fragment i => i + 1 = s.pane.tasks.length ∨ s.pane.item? i = some ""
  | .retrievalFailed i => i + 1 = s.pane.tasks.length ∨
      s.pane.running = false ∨ s.pane.latestBusy unfinished = false
  | .ended i => i + 1 = s.pane.tasks.length ∨
      s.pane.running = false ∨ s.pane.latestBusy unfinished = false
  | _ => true

structure Inv (s : State Source) : Prop where
  pane : s.pane.Own appended
  sources : OwnSources s.found s.sources

theorem inv_initial : Inv ({} : State Source) := by
  constructor <;> simp [Pane.Own, Pane.latest, OwnSources]

inductive Moves (s : State Source) : Action Source → State Source → Prop
  | rejected : Moves s (.ask none) s
  | ask (request : Request Source) : Moves s (.ask (some request)) (ask s request)
  | retrieved {i : ℕ} {sources : List Source} (hfound : s.found[i]? = some sources)
      (hphase : s.pane.inPhase i .waiting = true) :
      Moves s (.retrieved i)
        { s with sources := sources, pane := s.pane.setPhase i .streaming }
  | retrievalFailed {i : ℕ} (hphase : s.pane.inPhase i .waiting = true) :
      Moves s (.retrievalFailed i) { s with pane := s.pane.finish i }
  | fragment {i : ℕ} {item : String} (hitem : s.pane.item? i = some item)
      (hphase : s.pane.inPhase i .streaming = true) :
      Moves s (.fragment i) { s with pane := s.pane.deliver (· ++ ·) i item }
  | ended {i : ℕ} (hphase : s.pane.inPhase i .streaming = true) :
      Moves s (.ended i) { s with pane := s.pane.finish i }

theorem moves_of_step {s next : State Source} {action : Action Source}
    (hstep : machine.step s action = some next) : Moves s action next := by
  cases action with
  | ask request =>
      cases request with
      | none =>
          cases hstep
          exact .rejected
      | some request =>
          cases hstep
          exact .ask request
  | retrieved i =>
      simp only [machine, step, Option.bind_eq_bind, Option.bind_eq_some_iff] at hstep
      obtain ⟨sources, hfound, hstep⟩ := hstep
      split_ifs at hstep with hphase
      cases hstep
      exact .retrieved hfound hphase
  | retrievalFailed i =>
      simp only [machine, step] at hstep
      split_ifs at hstep with hphase
      cases hstep
      exact .retrievalFailed hphase
  | fragment i =>
      simp only [machine, step, Option.bind_eq_bind, Option.bind_eq_some_iff] at hstep
      obtain ⟨item, hitem, hstep⟩ := hstep
      split_ifs at hstep with hphase
      cases hstep
      exact .fragment hitem hphase
  | ended i =>
      simp only [machine, step] at hstep
      split_ifs at hstep with hphase
      cases hstep
      exact .ended hphase

section Steps

variable [DecidableEq Source] {s next : State Source} {action : Action Source}

theorem inv_step (hinv : Inv s) (hharmless : harmless s action = true)
    (hstep : machine.step s action = some next) : Inv next := by
  cases moves_of_step hstep with
  | rejected => exact hinv
  | ask request => exact ⟨Pane.own_ask rfl _ _ _, fun _ _ => .inl rfl⟩
  | @retrieved i sources hfound =>
      have hsources : i + 1 = s.found.length ∨ sources = s.sources := by
        simpa [harmless, hfound] using hharmless
      exact ⟨hinv.pane.setPhase i .streaming,
        ownSources_retrieved hinv.sources hfound hsources⟩
  | @retrievalFailed i => exact ⟨hinv.pane.finish i, hinv.sources⟩
  | @fragment i item hitem =>
      refine ⟨hinv.pane.deliver appended_snoc hitem ?_, hinv.sources⟩
      have hempty : i + 1 = s.pane.tasks.length ∨ item = "" := by
        simpa [harmless, hitem] using hharmless
      exact hempty.imp_right fun hitem => by rw [hitem, String.append_empty]
  | @ended i => exact ⟨hinv.pane.finish i, hinv.sources⟩

theorem flagKept_of_harmless (hharmless : harmless s action = true) : FlagKept s action := by
  intro i next hask hstep
  cases moves_of_step hstep with
  | rejected => cases hask
  | ask request => cases hask
  | retrieved => exact Pane.keepsFlag_of_running i id
  | retrievalFailed =>
      cases hask
      exact Pane.keepsFlag_finish (by simpa [harmless] using hharmless)
  | fragment => exact Pane.keepsFlag_of_running i id
  | ended =>
      cases hask
      exact Pane.keepsFlag_finish (by simpa [harmless] using hharmless)

theorem showsLatest_of_harmless {t : State Source} {actions : List (Action Source)}
    (hrun : machine.run {} actions = some t)
    (hharmless : machine.RunMeets (fun s action => harmless s action = true) {} actions) :
    ShowsLatest t ∧ machine.RunMeets FlagKept {} actions := by
  have hpreserve : ∀ (s : State Source) (action : Action Source) (next : State Source), Inv s →
      harmless s action = true → machine.step s action = some next → Inv next :=
    fun _ _ _ hinv hharmless hstep => inv_step hinv hharmless hstep
  constructor
  · have hinv := machine.run_invariant hpreserve inv_initial hharmless hrun
    exact ⟨hinv.pane.showsOwn, hinv.sources⟩
  · exact machine.runMeets_imp hpreserve (fun _ _ _ hharmless => flagKept_of_harmless hharmless)
      inv_initial hharmless

end Steps

end Android

/-! ## Both screens -/

/-- As long as no earlier `ask` finds anything to write, and on iOS no `ask` finds the
sources of an earlier one, both screens show the latest question's answer. -/
theorem screens_show_latest [DecidableEq Source] :
    (∀ (appleAvailable : Bool) (actions : List (Ios.Action Source)) (t : Ios.State Source),
      Ios.machine.run { appleAvailable := appleAvailable } actions = some t →
      Ios.machine.RunMeets (fun s action => Ios.harmless s action = true)
        { appleAvailable := appleAvailable } actions →
      Ios.ShowsLatest t ∧
        Ios.machine.RunMeets Ios.FlagsKept { appleAvailable := appleAvailable } actions) ∧
    (∀ (actions : List (Android.Action Source)) (t : Android.State Source),
      Android.machine.run {} actions = some t →
      Android.machine.RunMeets (fun s action => Android.harmless s action = true) {} actions →
      Android.ShowsLatest t ∧ Android.machine.RunMeets Android.FlagKept {} actions) :=
  ⟨fun _ _ _ hrun hharmless => Ios.showsLatest_of_harmless hrun hharmless,
    fun _ _ hrun hharmless => Android.showsLatest_of_harmless hrun hharmless⟩

def firstRequest : Request String := ⟨["manual a"], ["one"], ["One"]⟩

def secondRequest : Request String := ⟨["manual b"], ["two"], ["Two"]⟩

/-- The second question is asked after a first one whose retrieval has failed. -/
def iosRetry : List (Ios.Action String) :=
  [.ask firstRequest, .retrievalFailed 0, .ask secondRequest, .retrieved 1, .delta 1, .snapshot 1]

def androidOneByOne : List (Android.Action String) :=
  [.ask firstRequest, .retrieved 0, .fragment 0, .ended 0, .ask secondRequest, .retrieved 1,
    .fragment 1]

theorem screens_show_latest_oneByOne :
    (∃ t, Ios.machine.run {} iosRetry = some t ∧ t.engine.answer = "two" ∧
      t.sources = ["manual b"] ∧ Ios.ShowsLatest t) ∧
    (∃ t, Android.machine.run {} androidOneByOne = some t ∧ t.pane.answer = "two" ∧
      t.sources = ["manual b"] ∧ Android.ShowsLatest t) := by
  have hios : Ios.machine.run {} iosRetry = some
      { sources := ["manual b"]
        engine := ⟨"two", true, [⟨["one"], 0, .done⟩, ⟨["two"], 1, .streaming⟩]⟩
        apple := ⟨"Two", true, [⟨["One"], 0, .done⟩, ⟨["Two"], 1, .streaming⟩]⟩
        found := [["manual a"], ["manual b"]] } := by
    decide
  have handroid : Android.machine.run {} androidOneByOne = some
      { sources := ["manual b"]
        pane := ⟨"two", true, [⟨["one"], 1, .done⟩, ⟨["two"], 1, .streaming⟩]⟩
        found := [["manual a"], ["manual b"]] } := by
    decide
  have hboth := @screens_show_latest String _
  have hiosShows := hboth.1 true iosRetry _ hios (Ios.machine.runMeets_of_check (by decide))
  have handroidShows := hboth.2 androidOneByOne _ handroid
    (Android.machine.runMeets_of_check (by decide))
  exact ⟨⟨_, hios, rfl, rfl, hiosShows.1⟩, ⟨_, handroid, rfl, rfl, handroidShows.1⟩⟩

/-- The second question is asked while sources are retrieved for the first, and the first
retrieval is the last to complete. -/
def iosOverlap : List (Ios.Action String) :=
  [.ask firstRequest, .ask secondRequest, .retrieved 1, .delta 1, .retrieved 0, .delta 0]

/-- The second question is asked while the first is being answered. -/
def androidOverlap : List (Android.Action String) :=
  [.ask firstRequest, .retrieved 0, .ask secondRequest, .retrieved 1, .fragment 0]

theorem not_showsLatest_overlap :
    (∃ s t, Ios.machine.run {} iosOverlap = some s ∧
      Ios.machine.step s (.engineEnded 0) = some t ∧ s.engine.answer = "twoone" ∧
      s.sources = ["manual a"] ∧ ¬ Ios.ShowsLatest s ∧ s.engine.running = true ∧
      t.engine.running = false ∧ ¬ Ios.FlagsKept s (.engineEnded 0)) ∧
    (∃ s t, Android.machine.run {} androidOverlap = some s ∧
      Android.machine.step s (.ended 0) = some t ∧ s.pane.answer = "one" ∧
      ¬ Android.ShowsLatest s ∧ s.pane.running = true ∧ t.pane.running = false ∧
      ¬ Android.FlagKept s (.ended 0)) := by
  constructor
  · refine ⟨_, _, rfl, rfl, rfl, rfl, ?_, rfl, rfl, ?_⟩
    · intro hshows
      have hsources := hshows.sources _ rfl
      revert hsources
      decide
    · intro hkept
      have hflag := (hkept 0 _ rfl rfl).1 (by decide) rfl rfl
      cases hflag
  · refine ⟨_, _, rfl, rfl, rfl, ?_, rfl, rfl, ?_⟩
    · intro hshows
      obtain ⟨n, hanswer⟩ := hshows.pane _ rfl
      change "one" = appended (["two"].take n) at hanswer
      cases n with
      | zero => exact absurd hanswer (by decide)
      | succ n =>
          rw [List.take_of_length_le (by simp)] at hanswer
          exact absurd hanswer (by decide)
    · intro hkept
      have hflag := hkept 0 _ rfl rfl (by decide) rfl rfl
      cases hflag

end RagViewModel

end NativeInterop
