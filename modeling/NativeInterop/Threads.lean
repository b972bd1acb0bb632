import NativeInterop.Machine
import Mathlib.Logic.Function.Basic

/-!
# Threads that run the same code

A system of threads has what they share and, for each, the place in the code where it stands.
A proof outline says what holds of the shared state at each place.  If every step keeps what is
said of its own thread, and of each other thread, then all of it holds in every run.  This file
is independent of any particular code.
-/

namespace NativeInterop

structure Threads (Shared Pc : Type*) where
  shared : Shared
  pc : ℕ → Pc

namespace Threads

variable {Shared Pc α : Type*}

/-- One step of thread `i`: the shared state and the place it stands at afterwards. -/
abbrev Code (Shared Pc α : Type*) := ℕ → α → Shared → Pc → Option (Shared × Pc)

def machine (code : Code Shared Pc α) : Machine (Threads Shared Pc) (ℕ × α) where
  step t act := (code act.1 act.2 t.shared (t.pc act.1)).map fun next =>
    ⟨next.1, Function.update t.pc act.1 next.2⟩

structure Outline (code : Code Shared Pc α) (Inv : Shared → Prop)
    (At : ℕ → Pc → Shared → Prop) : Prop where
  own : ∀ {i a shared pc next}, Inv shared → At i pc shared → code i a shared pc = some next →
    Inv next.1 ∧ At i next.2 next.1
  other : ∀ {i a shared pc next j place}, Inv shared → At i pc shared →
    code i a shared pc = some next → j ≠ i → At j place shared → At j place next.1

variable {code : Code Shared Pc α} {Inv : Shared → Prop} {At : ℕ → Pc → Shared → Prop}
  {s t : Threads Shared Pc} {acts : List (ℕ × α)}

theorem step_eq_some {act : ℕ × α} :
    (machine code).step s act = some t ↔
      ∃ next, code act.1 act.2 s.shared (s.pc act.1) = some next ∧
        t = ⟨next.1, Function.update s.pc act.1 next.2⟩ := by
  rw [machine, Option.map_eq_some_iff]
  exact exists_congr fun next => and_congr_right fun _ => eq_comm

theorem Outline.step (houtline : Outline code Inv At) {act : ℕ × α}
    (hinv : Inv s.shared ∧ ∀ i, At i (s.pc i) s.shared)
    (hstep : (machine code).step s act = some t) :
    Inv t.shared ∧ ∀ i, At i (t.pc i) t.shared := by
  obtain ⟨next, hcode, rfl⟩ := step_eq_some.mp hstep
  obtain ⟨hshared, hat⟩ := hinv
  obtain ⟨hnext, hown⟩ := houtline.own hshared (hat act.1) hcode
  refine ⟨hnext, fun j => ?_⟩
  rcases eq_or_ne j act.1 with rfl | hne
  · simpa using hown
  · simpa [hne] using houtline.other hshared (hat act.1) hcode hne (hat j)

theorem Outline.run (houtline : Outline code Inv At)
    (hinit : Inv s.shared ∧ ∀ i, At i (s.pc i) s.shared)
    (hrun : (machine code).run s acts = some t) :
    Inv t.shared ∧ ∀ i, At i (t.pc i) t.shared :=
  (machine code).run_invariant_of_step
    (I := fun u => Inv u.shared ∧ ∀ i, At i (u.pc i) u.shared)
    (fun _ _ _ hinv hstep => houtline.step hinv hstep) hinit hrun

/-! ## A gate -/

/-- At most one thread is behind the gate.  `Free` is said of the shared state while there is none,
`Held` of the shared state and the place of the one that is there, `Out` of the places in front
of it. -/
structure Gate (code : Code Shared Pc α) (inside : Pc → Bool) (Free : Shared → Prop)
    (Held : Shared → Pc → Prop) (Out : Pc → Prop) : Prop where
  outside : ∀ {i a shared pc next}, code i a shared pc = some next → inside pc = false → Out pc →
    (next.1 = shared ∧ inside next.2 = false ∧ Out next.2) ∨
    (inside next.2 = true ∧ (∀ place, ¬ Held shared place) ∧ (Free shared → Held next.1 next.2))
  inside : ∀ {i a shared pc next}, code i a shared pc = some next → inside pc = true →
    Held shared pc →
    (inside next.2 = true ∧ Held next.1 next.2) ∨
    (inside next.2 = false ∧ Free next.1 ∧ Out next.2)

section Gate

variable {inside : Pc → Bool} {Free : Shared → Prop} {Held : Shared → Pc → Prop}
  {Out : Pc → Prop}

structure Gated (inside : Pc → Bool) (Free : Shared → Prop) (Held : Shared → Pc → Prop)
    (Out : Pc → Prop) (t : Threads Shared Pc) : Prop where
  out : ∀ i, inside (t.pc i) = false → Out (t.pc i)
  gate : (Free t.shared ∧ ∀ i, inside (t.pc i) = false) ∨
    ∃ i, inside (t.pc i) = true ∧ Held t.shared (t.pc i) ∧ ∀ j, inside (t.pc j) = true → j = i

theorem Gated.alone {i j : ℕ} (hgated : Gated inside Free Held Out t)
    (hi : inside (t.pc i) = true) (hj : inside (t.pc j) = true) : i = j := by
  rcases hgated.gate with ⟨_, hnone⟩ | ⟨k, _, _, honly⟩
  · exact absurd hi (by simp [hnone i])
  · exact (honly i hi).trans (honly j hj).symm

theorem Gated.held {i : ℕ} (hgated : Gated inside Free Held Out t)
    (hi : inside (t.pc i) = true) : Held t.shared (t.pc i) := by
  rcases hgated.gate with ⟨_, hnone⟩ | ⟨k, _, hheld, honly⟩
  · exact absurd hi (by simp [hnone i])
  · rwa [honly i hi]

theorem Gated.free (hgated : Gated inside Free Held Out t)
    (hnone : ∀ i, inside (t.pc i) = false) : Free t.shared := by
  rcases hgated.gate with ⟨hfree, _⟩ | ⟨k, hk, _⟩
  · exact hfree
  · exact absurd hk (by simp [hnone k])

theorem Gate.step (hcode : Gate code inside Free Held Out) {act : ℕ × α}
    (hgated : Gated inside Free Held Out s) (hstep : (machine code).step s act = some t) :
    Gated inside Free Held Out t := by
  obtain ⟨i, a⟩ := act
  obtain ⟨next, hnext, rfl⟩ := step_eq_some.mp hstep
  generalize ht : (⟨next.1, Function.update s.pc i next.2⟩ : Threads Shared Pc) = t
  have hshared : t.shared = next.1 := by rw [← ht]
  have hsame : t.pc i = next.2 := ht ▸ Function.update_self ..
  have hother : ∀ j, j ≠ i → t.pc j = s.pc j := fun j hne => ht ▸ Function.update_of_ne hne ..
  have hout : (inside next.2 = false → Out next.2) →
      ∀ j, inside (t.pc j) = false → Out (t.pc j) := by
    intro hmoved j hj
    rcases eq_or_ne j i with rfl | hne
    · rw [hsame] at hj ⊢
      exact hmoved hj
    · rw [hother j hne] at hj ⊢
      exact hgated.out j hj
  cases hi : inside (s.pc i) with
  | false =>
      rcases hcode.outside hnext hi (hgated.out i hi) with
        ⟨hunchanged, hstill, hmoved⟩ | ⟨henters, hopen, hheld⟩
      · have hkeeps : ∀ j, inside (t.pc j) = inside (s.pc j) := by
          intro j
          rcases eq_or_ne j i with rfl | hne
          · rw [hsame, hstill, hi]
          · rw [hother j hne]
        refine ⟨hout fun _ => hmoved, ?_⟩
        rw [hshared, hunchanged]
        simp only [hkeeps]
        rcases hgated.gate with hfree | ⟨k, hk, hthere, honly⟩
        · exact .inl hfree
        · have hne : k ≠ i := by
            rintro rfl
            exact absurd hk (by simp [hi])
          exact .inr ⟨k, hk, by rwa [hother k hne], honly⟩
      · refine ⟨hout fun hleft => absurd hleft (by simp [henters]), .inr ⟨i, ?_⟩⟩
        rw [hshared, hsame]
        refine ⟨henters, ?_, fun j hj => ?_⟩
        · rcases hgated.gate with ⟨hfree, _⟩ | ⟨k, _, hthere, _⟩
          · exact hheld hfree
          · exact absurd hthere (hopen _)
        · by_contra hne
          rw [hother j hne] at hj
          exact hopen _ (hgated.held hj)
  | true =>
      rcases hcode.inside hnext hi (hgated.held hi) with
        ⟨hstays, hheld⟩ | ⟨hleaves, hfree, hmoved⟩
      · refine ⟨hout fun hleft => absurd hleft (by simp [hstays]), .inr ⟨i, ?_⟩⟩
        rw [hshared, hsame]
        refine ⟨hstays, hheld, fun j hj => ?_⟩
        by_contra hne
        rw [hother j hne] at hj
        exact hne (hgated.alone hj hi)
      · refine ⟨hout fun _ => hmoved, .inl ⟨hshared ▸ hfree, fun j => ?_⟩⟩
        rcases eq_or_ne j i with rfl | hne
        · rw [hsame, hleaves]
        · rw [hother j hne, ← Bool.not_eq_true]
          exact fun hj => hne (hgated.alone hj hi)

theorem Gate.run (hcode : Gate code inside Free Held Out) (hinit : Gated inside Free Held Out s)
    (hrun : (machine code).run s acts = some t) : Gated inside Free Held Out t :=
  (machine code).run_invariant_of_step (fun _ _ _ hgated hstep => hcode.step hgated hstep)
    hinit hrun

end Gate

end Threads

end NativeInterop
