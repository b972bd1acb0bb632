import NativeInterop.EdgeSearch
import NativeInterop.Threads

/-!
# Loading the search engine

`ensureLoaded` looks at the encoder without the gate, and once more with it.  The three fields
are written one after the other, the encoder last; any of the three loads may throw, and a call
that waits for the gate may be cancelled.  A search embeds its query inside the gate and reads
the chunks outside.
-/

namespace NativeInterop

namespace EdgeSearchEngine

open EdgeIndex (EdgeChunk)

/-- What the files of the assets directory hold. -/
structure Assets where
  vocab : List String
  index : List EdgeChunk
  model : Bytes

structure Shared where
  tokenizer : Option (List String) := none
  chunks : List EdgeChunk := []
  encoder : Option Bytes := none
  gate : Option ℕ := none
  /-- How many encoders have been made. -/
  made : ℕ := 0

inductive Call where
  | facets
  | search
  deriving DecidableEq, Repr

inductive Pc where
  | idle
  | entered (call : Call)
  | waiting (call : Call)
  | holding (call : Call)
  | tokenizing (call : Call)
  | indexing (call : Call)
  | encoding (call : Call)
  | loaded (call : Call)
  | queued
  | embedding
  | ranking
  | returned (chunks : List EdgeChunk)
  | raised
  | notLoaded

inductive Move where
  | call (call : Call)
  | go
  | fail

variable (assets : Assets)

def code : Threads.Code Shared Pc Move
  | _, .call c, s, .idle => some (s, .entered c)
  | _, .go, s, .entered c => some (s, if s.encoder.isSome then .loaded c else .waiting c)
  | i, .go, s, .waiting c =>
      if s.gate = none then some ({ s with gate := some i }, .holding c) else none
  | _, .fail, s, .waiting _ => some (s, .raised)
  | _, .go, s, .holding c =>
      if s.encoder = none then some (s, .tokenizing c)
      else some ({ s with gate := none }, .loaded c)
  | _, .go, s, .tokenizing c => some ({ s with tokenizer := some assets.vocab }, .indexing c)
  | _, .go, s, .indexing c => some ({ s with chunks := assets.index }, .encoding c)
  | _, .go, s, .encoding c =>
      some ({ s with encoder := some assets.model, made := s.made + 1, gate := none }, .loaded c)
  | _, .fail, s, .tokenizing _ => some ({ s with gate := none }, .raised)
  | _, .fail, s, .indexing _ => some ({ s with gate := none }, .raised)
  | _, .fail, s, .encoding _ => some ({ s with gate := none }, .raised)
  | _, .go, s, .loaded .facets => some (s, .ranking)
  | _, .go, s, .loaded .search =>
      some (s, if s.encoder.isSome ∧ s.tokenizer.isSome then .queued else .notLoaded)
  | i, .go, s, .queued =>
      if s.gate = none then some ({ s with gate := some i }, .embedding) else none
  | _, .fail, s, .queued => some (s, .raised)
  | _, .go, s, .embedding => some ({ s with gate := none }, .ranking)
  | _, .fail, s, .embedding => some ({ s with gate := none }, .raised)
  | _, .go, s, .ranking => some (s, .returned s.chunks)
  | _, _, _, _ => none

def start : Threads Shared Pc := ⟨{}, fun _ => .idle⟩

/-! ## The outline -/

/-- A thread that has the gate. -/
def Pc.inside : Pc → Bool
  | .holding _ | .tokenizing _ | .indexing _ | .encoding _ | .embedding => true
  | _ => false

structure Sound (s : Shared) : Prop where
  encoder : ∀ model, s.encoder = some model →
    model = assets.model ∧ s.tokenizer = some assets.vocab ∧ s.chunks = assets.index
  made : s.made = if s.encoder.isSome then 1 else 0

/-- How far the load has come where the thread stands. -/
def Progress (s : Shared) : Pc → Prop
  | .tokenizing _ => s.encoder = none
  | .indexing _ => s.encoder = none ∧ s.tokenizer = some assets.vocab
  | .encoding _ =>
      s.encoder = none ∧ s.tokenizer = some assets.vocab ∧ s.chunks = assets.index
  | .loaded _ | .queued | .embedding | .ranking => s.encoder ≠ none
  | .returned chunks => chunks = assets.index
  | .notLoaded => False
  | _ => True

structure At (i : ℕ) (pc : Pc) (s : Shared) : Prop where
  gate : s.gate = some i ↔ pc.inside = true
  progress : Progress assets s pc

variable {assets}

theorem Sound.loaded {s : Shared} (hsound : Sound assets s) (hencoder : s.encoder ≠ none) :
    s.tokenizer = some assets.vocab ∧ s.chunks = assets.index := by
  obtain ⟨model, hmodel⟩ := Option.ne_none_iff_exists'.mp hencoder
  exact (hsound.encoder model hmodel).2

/-- Taking and leaving the gate says nothing to the other threads. -/
theorem At.gateMoved {j : ℕ} {place : Pc} {s : Shared} (hother : At assets j place s)
    {gate : Option ℕ} (hgate : gate = some j ↔ s.gate = some j) :
    At assets j place { s with gate := gate } where
  gate := hgate.trans hother.gate
  progress := by
    have hprogress := hother.progress
    cases place <;> exact hprogress

/-- While a thread loads, no other is at a place that says anything about the fields. -/
theorem At.loading {i j : ℕ} {place : Pc} {s after : Shared} (hother : At assets j place s)
    (hheld : s.gate = some i) (hne : j ≠ i) (hnone : s.encoder = none)
    (hafter : after.gate ≠ some j) : At assets j place after := by
  obtain ⟨hgate, hprogress⟩ := hother
  have houtside : place.inside = false := by
    rw [← Bool.not_eq_true, ← hgate, hheld, Option.some.injEq]
    exact Ne.symm hne
  constructor
  · rw [houtside]
    exact iff_of_false hafter (by decide)
  · cases place <;> simp_all [Progress, Pc.inside]

theorem outline : Threads.Outline (code assets) (Sound assets) (At assets) where
  own := by
    intro i a s pc next hsound hat hcode
    have hloaded := hsound.loaded
    obtain ⟨hencoder, hmade⟩ := hsound
    obtain ⟨hgate, hprogress⟩ := hat
    unfold code at hcode
    split at hcode <;> (try split at hcode) <;>
      simp only [Option.some.injEq, reduceCtorEq] at hcode
    all_goals
      subst hcode
      refine ⟨⟨?_, ?_⟩, ⟨?_, ?_⟩⟩
    all_goals try simp_all [Progress, Pc.inside]
    -- the fast path
    exact Option.isSome_iff_ne_none.mp ‹_›
  other := by
    intro i a s pc next j place hsound hat hcode hne hother
    obtain ⟨hgate, hprogress⟩ := hat
    have hfree : s.gate = some i → s.gate ≠ some j := by
      rintro hheld hboth
      exact hne (Option.some.inj (hboth.symm.trans hheld))
    unfold code at hcode
    split at hcode <;> (try split at hcode) <;>
      simp only [Option.some.injEq, reduceCtorEq] at hcode
    all_goals subst hcode
    all_goals first
      | exact hother
      | exact hother.loading (hgate.mpr rfl) hne hprogress (hfree (hgate.mpr rfl))
      | exact hother.loading (hgate.mpr rfl) hne hprogress.1 (hfree (hgate.mpr rfl))
      | exact hother.loading (hgate.mpr rfl) hne hprogress.1 nofun
      | exact hother.gateMoved (iff_of_false nofun (hfree (hgate.mpr rfl)))
      | exact hother.gateMoved (by simp_all [Ne.symm hne])

theorem start_sound : Sound assets (start.shared) ∧
    ∀ i, At assets i (start.pc i) start.shared :=
  ⟨⟨nofun, rfl⟩, fun _ => ⟨by simp [start, Pc.inside], trivial⟩⟩

/-- In a system of calls that have not begun: none finds the engine not loaded, what a call ranks
is the whole index, one encoder is made, and a thread embeds only while no other embeds or
loads. -/
structure Safe (assets : Assets) (t : Threads Shared Pc) : Prop where
  loaded : ∀ i, t.pc i ≠ .notLoaded
  returned : ∀ i chunks, t.pc i = .returned chunks → chunks = assets.index
  made : t.shared.made ≤ 1
  exclusive : ∀ i j, (t.pc i).inside = true → (t.pc j).inside = true → i = j
  /-- A call that has not ended can go on, or the one that has the gate can. -/
  goes : ∀ i, t.pc i ≠ .idle → t.pc i ≠ .raised → (∀ chunks, t.pc i ≠ .returned chunks) →
    ∃ j next, (Threads.machine (code assets)).step t (j, .go) = some next

theorem inside_goes {i : ℕ} {pc : Pc} (hinside : pc.inside = true) (s : Shared) :
    ∃ next, code assets i .go s pc = some next := by
  cases pc <;> simp only [Pc.inside, Bool.false_eq_true] at hinside
  case holding c =>
    rw [code]
    split_ifs <;> exact ⟨_, rfl⟩
  all_goals exact ⟨_, rfl⟩

/-- Whoever waits for the gate gets it, or the thread that has it goes on. -/
theorem gate_goes {t : Threads Shared Pc} (hat : ∀ i, At assets i (t.pc i) t.shared) (i : ℕ)
    (hgo : t.shared.gate = none → ∃ next, code assets i .go t.shared (t.pc i) = some next) :
    ∃ j next, code assets j .go t.shared (t.pc j) = some next := by
  cases hgate : t.shared.gate with
  | none => exact ⟨i, hgo hgate⟩
  | some j => exact ⟨j, inside_goes ((hat j).gate.mp hgate) t.shared⟩

theorem run_safe (assets : Assets) {acts : List (ℕ × Move)} {t : Threads Shared Pc}
    (hrun : (Threads.machine (code assets)).run start acts = some t) : Safe assets t := by
  obtain ⟨hsound, hat⟩ := outline.run start_sound hrun
  constructor
  · intro i hpc
    have hprogress := (hat i).progress
    rwa [hpc] at hprogress
  · intro i chunks hpc
    have hprogress := (hat i).progress
    rwa [hpc] at hprogress
  · rw [hsound.made]
    split_ifs <;> decide
  · intro i j hi hj
    have hheld := (hat i).gate.mpr hi
    exact Option.some.inj (hheld.symm.trans ((hat j).gate.mpr hj))
  · intro i hidle hraised hreturned
    suffices hcode : ∃ j next, code assets j .go t.shared (t.pc j) = some next by
      obtain ⟨j, next, hnext⟩ := hcode
      exact ⟨j, _, Threads.step_eq_some.mpr ⟨next, hnext, rfl⟩⟩
    have hprogress := (hat i).progress
    cases hpc : t.pc i with
    | idle => exact absurd hpc hidle
    | waiting c => exact gate_goes hat i fun hfree => ⟨_, by rw [hpc, code, if_pos hfree]⟩
    | queued => exact gate_goes hat i fun hfree => ⟨_, by rw [hpc, code, if_pos hfree]⟩
    | holding c => exact ⟨i, inside_goes (by rw [hpc]; rfl) t.shared⟩
    | loaded c =>
        refine ⟨i, ?_⟩
        rw [hpc]
        cases c <;> exact ⟨_, rfl⟩
    | returned chunks => exact absurd hpc (hreturned chunks)
    | raised => exact absurd hpc hraised
    | notLoaded =>
        rw [hpc] at hprogress
        exact hprogress.elim
    | _ =>
        refine ⟨i, ?_⟩
        rw [hpc]
        exact ⟨_, rfl⟩

/-- A search that loads, and a call for the facets that waits for it. -/
def twoCalls : List (ℕ × Move) :=
  [(0, .call .search), (1, .call .facets), (0, .go), (1, .go), (0, .go), (0, .go), (0, .go),
    (0, .go), (0, .go), (0, .go), (1, .go), (1, .go), (0, .go), (1, .go), (1, .go)]

theorem run_safe_search :
    ∃ t, (Threads.machine (code ⟨["[UNK]"], [], [8]⟩)).run start twoCalls = some t ∧
      Safe ⟨["[UNK]"], [], [8]⟩ t ∧ t.shared.gate = some 0 ∧ t.pc 1 = .returned [] :=
  ⟨_, rfl, @run_safe _ twoCalls _ rfl, rfl, rfl⟩

end EdgeSearchEngine

end NativeInterop
